import Keyring.Document.Data

/-!
# Formats

A format is a kind of value that can be looked at as records, lists and scalars.
Records are read through these views alone, so every format is read alike.

A value may be a reference to another. How many references one reading may follow
is bounded, so a small document cannot stand for a very large one.
-/

namespace Keyring

/-- A reading that may fail. Its state is how many references may still be followed. -/
abbrev Reading := StateT Nat Option

namespace Reading

def ofOption {β : Type} (b : Option β) : Reading β := fun budget => b.map (·, budget)

def follow : Reading Unit
  | 0 => none
  | budget + 1 => some ((), budget)

/-- What is read where so many references may be followed. -/
def result? {β : Type} (read : Reading β) (budget : Nat) : Option β :=
  (read.run budget).map Prod.fst

end Reading

/-- The fields of a record, by name or in the order in which the record declares them. -/
inductive FieldRow (α : Type) where
  | named (fields : List (String × α))
  | ordered (items : List α)

/-- The views of a value. Each fails for a value of another kind. -/
class Format (α : Type) where
  fields? : α → Reading (FieldRow α)
  items? : α → Reading (List α)
  text? : α → Reading String
  whole? : α → Reading Nat
  flag? : α → Reading Bool
  /-- The name of one of several alternatives. -/
  choice? : α → Reading String
  /-- An optional value: `none` where it is absent. -/
  optional? : α → Reading (Option α)

namespace Format

/-- Two values under one declared name. -/
def repeats {α : Type} (declared : List String) (fields : List (String × α)) : Bool :=
  declared.any fun name => decide (1 < (fields.map Prod.fst).count name)

/-- The declared fields of a record. A declared field may be given once, others are ignored;
without names there are at most as many values as declared fields. -/
def declaredFields? {α : Type} (declared : List String) : FieldRow α → Option (List (String × α))
  | .named fields => if repeats declared fields then none else some fields
  | .ordered items => if declared.length < items.length then none else some (declared.zip items)

variable {α β : Type} [Format α]

def record? (declared : List String) (a : α) : Reading (List (String × α)) := do
  Reading.ofOption (declaredFields? declared (← fields? a))

def required (fields : List (String × α)) (name : String) (read : α → Reading β) : Reading β :=
  match fields.lookup name with
  | some a => read a
  | none => failure

/-- A field with a value to fall back on. -/
def withDefault (fields : List (String × α)) (name : String) (fallback : β) (read : α → Reading β) :
    Reading β :=
  match fields.lookup name with
  | some a => read a
  | none => return fallback

/-- A field that may be left out or given as absent. -/
def optionalField (fields : List (String × α)) (name : String) (read : α → Reading β) :
    Reading (Option β) :=
  match fields.lookup name with
  | none => return none
  | some a => do
    match ← optional? a with
    | some b => return some (← read b)
    | none => return none

/-- A list of values that are all read alike. -/
def listOf (read : α → Reading β) (a : α) : Reading (List β) := do (← items? a).mapM read

def texts : α → Reading (List String) := listOf text?

def wholeBelow (bound : Nat) (a : α) : Reading Nat := do
  let n ← whole? a
  if n < bound then return n else failure

/-- A value of a kind whose names are known. -/
def oneOf (ofName? : String → Option β) (a : α) : Reading β := do
  Reading.ofOption (ofName? (← choice? a))

end Format

/-! ## Data as a format

Data holds no references. -/

namespace Data

def fields? : Data → Option (FieldRow Data)
  | record fields => some (.named fields)
  | list items => some (.ordered items)
  | _ => none

def items? : Data → Option (List Data)
  | list items => some items
  | _ => none

def text? : Data → Option String
  | text s => some s
  | _ => none

def whole? : Data → Option Nat
  | number n => if 0 ≤ n then some n.toNat else none
  | _ => none

def flag? : Data → Option Bool
  | flag b => some b
  | _ => none

/-- A record of one field that is null names an alternative, as its text alone does. -/
def choice? : Data → Option String
  | text s => some s
  | record [(name, null)] => some name
  | _ => none

def optional? : Data → Option Data
  | null => none
  | d => some d

def read? {β : Type} (read : Data → Reading β) (d : Data) : Option β := (read d).result? 0

end Data

instance : Format Data where
  fields? d := Reading.ofOption d.fields?
  items? d := Reading.ofOption d.items?
  text? d := Reading.ofOption d.text?
  whole? d := Reading.ofOption d.whole?
  flag? d := Reading.ofOption d.flag?
  choice? d := Reading.ofOption d.choice?
  optional? d := return d.optional?

end Keyring

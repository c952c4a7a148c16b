/-!
# Data

What a document holds: scalars, lists and records whose fields keep their order.
-/

namespace Keyring

/-- The value of a document. `unreadable` stands for a value that no field of a
record takes: a number with a fraction, or a text with half a character. -/
inductive Data where
  | null
  | flag (value : Bool)
  | number (value : Int)
  | text (value : String)
  | list (items : List Data)
  | record (fields : List (String × Data))
  | unreadable
deriving Repr, Inhabited

namespace Data

/-- A field that is left out when it has no value. -/
def optionalField {α : Type} (name : String) (value : Option α) (data : α → Data) :
    List (String × Data) :=
  match value with
  | some x => [(name, data x)]
  | none => []

/-- A list that is left out when it is empty. -/
def nonemptyField (name : String) (items : List Data) : List (String × Data) :=
  if items.isEmpty then [] else [(name, list items)]

def ofNat (n : Nat) : Data := number n

def texts (items : List String) : Data := list (items.map text)

def orNull {α : Type} (data : α → Data) : Option α → Data
  | some x => data x
  | none => null

def field? (name : String) : Data → Option Data
  | record fields => fields.lookup name
  | _ => none

/-- A field put in order of its name. -/
def insertField (f : String × Data) : List (String × Data) → List (String × Data)
  | [] => [f]
  | g :: rest => if f.1 ≤ g.1 then f :: g :: rest else g :: insertField f rest

mutual

/-- The fields of every record in order of their names. -/
def sorted : Data → Data
  | list items => list (sortedItems items)
  | record fields => record (sortedFields fields)
  | d => d

def sortedItems : List Data → List Data
  | [] => []
  | d :: rest => sorted d :: sortedItems rest

def sortedFields : List (String × Data) → List (String × Data)
  | [] => []
  | (name, d) :: rest => insertField (name, sorted d) (sortedFields rest)

end

end Data

end Keyring

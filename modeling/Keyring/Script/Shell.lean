import Keyring.Script.Command
import Keyring.Script.Pattern
import Keyring.Script.Sum

/-!
# A script at work

What a script knows and has written so far, and the fields that its words stand for.
-/

namespace Keyring.Script

/-- Why a script does not go on with its next command. -/
inductive Stop where
  | exited (status : Nat)
  | killed
  /-- Out of some loops. -/
  | leave (loops : Nat)
  /-- Out of all but the last of some loops, which goes on with its next turn. -/
  | again (loops : Nat)
  /-- A loop takes more turns than are allowed. -/
  | endless
deriving DecidableEq, Repr

structure Shell where
  /-- How the script was called. -/
  name : Bytes
  args : List Bytes
  values : List (Bytes × Bytes)
  /-- That of the last command. -/
  status : Nat
  /-- What is still to be read. -/
  input : Bytes
  /-- Where the channels lead, `none` for nowhere. -/
  output : Option Channel
  complaints : Option Channel
  /-- What was written, the last part first. -/
  written : List (Channel × Bytes)
deriving DecidableEq, Repr

/-- Work of a script; what it has written before it stops stays written. -/
abbrev ShellM := ExceptT Stop (StateM Shell)

namespace Shell

def start (name : Bytes) (args : List Bytes) (values : List (Bytes × Bytes)) (input : Bytes) : Shell :=
  { name, args, values, status := 0, input, output := some .output,
    complaints := some .complaints, written := [] }

def writtenTo (sh : Shell) (c : Channel) : Bytes :=
  sh.written.reverse.flatMap fun (d, s) => if d = c then s else []

def leadsTo (sh : Shell) : Channel → Option Channel
  | .output => sh.output
  | .complaints => sh.complaints

def write (c : Channel) (s : Bytes) : ShellM Unit :=
  modify fun sh => match sh.leadsTo c with
    | some d => { sh with written := (d, s) :: sh.written }
    | none => sh

/-- A complaint, with the script and the line that it is about. -/
def complain (line : Nat) (what : Bytes) : ShellM Unit := do
  write .complaints ((← get).name ++ ": ".toList ++ Text.decimal line ++ ": ".toList ++ what ++ ['\n'])

/-- The number by which a script knows itself. -/
def ownNumber : Nat := 2

def unassigned (sh : Shell) (name : Bytes) : Shell :=
  { sh with values := sh.values.filter (·.1 ≠ name) }

def assigned (sh : Shell) (name value : Bytes) : Shell :=
  { sh with values := (name, value) :: (sh.unassigned name).values }

/-- What a parameter stands for; nothing if it was never assigned. -/
def value (sh : Shell) (name : Bytes) : Bytes :=
  match name with
  | ['?'] => Text.decimal sh.status
  | ['#'] => Text.decimal sh.args.length
  | ['$'] => Text.decimal ownNumber
  | ['@'] | ['*'] => [' '].intercalate sh.args
  | _ =>
    match Text.natOfDigits? 10 name with
    | some n => ((sh.name :: sh.args)[n]?).getD []
    | none => (sh.values.lookup name).getD []

/-- The characters at which values are split. -/
def separators (sh : Shell) : Bytes := (sh.values.lookup "IFS".toList).getD [' ', '\t', '\n']

/-- Fields done, the last one first, and the one that is being put together. -/
structure Fields where
  done : List Bytes
  open_ : Option Bytes

namespace Fields

def add (f : Fields) (s : Bytes) : Fields := { f with open_ := some (f.open_.getD [] ++ s) }

def close (f : Fields) : Fields :=
  match f.open_ with
  | some s => ⟨s :: f.done, none⟩
  | none => f

/-- A value split at separators. A blank one only parts fields, any other ends one. -/
def addSplit (separators : Bytes) (f : Fields) (s : Bytes) : Fields :=
  s.foldl (fun f c =>
    if !separators.contains c then f.add [c]
    else if c = ' ' || c = '\t' || c = '\n' then f.close
    else (f.add []).close) f

/-- Values that are fields each; the first goes on with the open field, the last stays open. -/
def addEach (put : Fields → Bytes → Fields) : Fields → List Bytes → Fields
  | f, [] => f
  | f, [s] => put f s
  | f, s :: rest => addEach put (put f s).close rest

def toList (f : Fields) : List Bytes := f.close.done.reverse

end Fields

/-- A piece as a part of the fields of its word. -/
def addPiece (sh : Shell) (f : Fields) : Piece → Option Fields
  | .plain _ s => some (f.add s)
  | .parameter true ['@'] => some (Fields.addEach Fields.add f sh.args)
  | .parameter false ['@'] | .parameter false ['*'] =>
    some (Fields.addEach (Fields.addSplit sh.separators) f sh.args)
  | .parameter true name => some (f.add (sh.value name))
  | .parameter false name => some (f.addSplit sh.separators (sh.value name))
  | .sum _ s => (sumValue? sh.value s).map fun n => f.add (Text.integer n)

/-- The fields of a word, `none` where a sum has no value. -/
def fieldsOf? (sh : Shell) (w : Word) : Option (List Bytes) :=
  (w.foldlM sh.addPiece ⟨[], none⟩).map Fields.toList

def pieceText? (sh : Shell) : Piece → Option Bytes
  | .plain _ s => some s
  | .parameter _ name => some (sh.value name)
  | .sum _ s => (sumValue? sh.value s).map Text.integer

def textOf? (sh : Shell) (w : Word) : Option Bytes :=
  (w.mapM sh.pieceText?).map List.flatten

def patternOf? (sh : Shell) (w : Word) : Option Pattern :=
  (w.mapM fun p => (sh.pieceText? p).map (p.isQuoted, ·)).map Pattern.ofParts

end Shell

end Keyring.Script

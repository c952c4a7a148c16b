import Keyring.Error
import Keyring.Text.Blank
import Keyring.Text.Lines
import Keyring.Text.Utf8

/-!
# The managed section

Of an ssh configuration only the lines between two marker lines belong to the
vault. `merge` puts a block there, `strip` takes the section out again, and both
keep every other character.
-/

namespace Keyring.Managed

open Text

def beginMarker : String := "# BEGIN SSH-VAULT MANAGED BLOCK (do not edit)"
def endMarker : String := "# END SSH-VAULT MANAGED BLOCK"

/-- A line that holds a marker between blanks. -/
def isBegin (line : List Char) : Bool := trim line = beginMarker.toList
def isEnd (line : List Char) : Bool := trim line = endMarker.toList

def isMarker (line : List Char) : Bool := isBegin line || isEnd line

/-- The bytes of a section: from the start of the line with the begin marker to the end of the line with
the end marker, its line feed included. -/
structure Section where
  start : Nat
  stop : Nat
deriving DecidableEq, Repr

/-- What a pass over the lines of a text has met: where the lines with begin markers start, where those
with end markers end, and how many bytes the lines have. -/
structure Tally where
  begins : List Nat
  ends : List Nat
  offset : Nat
deriving DecidableEq, Repr

def Tally.empty : Tally := ⟨[], [], 0⟩

def Tally.step (t : Tally) (line : List Char) : Tally :=
  let next := t.offset + byteCount line
  if isBegin line then { t with begins := t.begins ++ [t.offset], offset := next }
  else if isEnd line then { t with ends := t.ends ++ [next], offset := next }
  else { t with offset := next }

def tally (lines : List (List Char)) : Tally := lines.foldl Tally.step .empty

/-- The section: one begin marker and after it one end marker, or no marker at all. -/
def locate (text : List Char) : Except Error (Option Section) :=
  let found := tally (lines text)
  match found.begins, found.ends with
  | [], [] => .ok none
  | [start], [stop] =>
    if start < stop then .ok (some ⟨start, stop⟩)
    else .error (.malformedSection "end marker appears before begin marker")
  | [_], [] => .error (.malformedSection "begin marker without end marker")
  | [], [_] => .error (.malformedSection "end marker without begin marker")
  | begins, ends => .error (.malformedSection
      s!"found {begins.length} begin and {ends.length} end markers, expected one of each")

def cutAt (text : List Char) (n : Nat) : Except Error (List Char × List Char) :=
  match cutAtByte? text n with
  | some halves => .ok halves
  | none => .error .cutCharacter

/-- What stands before a section and what stands after it. -/
def around (text : List Char) (s : Section) : Except Error (List Char × List Char) := do
  let (before, _) ← cutAt text s.start
  let (_, after) ← cutAt text s.stop
  return (before, after)

/-- A text with a line feed at its end, unless it is empty. -/
def closeLine (text : List Char) : List Char :=
  if text = [] ∨ endsLine text then text else text ++ ['\n']

/-- A block in place of the section, or else after an empty line at the end. -/
def merge (text block : List Char) : Except Error (List Char) := do
  match ← locate text with
  | some s =>
    let (before, after) ← around text s
    return before ++ block ++ after
  | none => return if text = [] then block else closeLine text ++ '\n' :: block

/-- A text without the empty line at its end. -/
def dropSeparator (text : List Char) : List Char :=
  match text.reverse with
  | '\n' :: '\n' :: rest => ('\n' :: rest).reverse
  | _ => text

/-- A text without its section and without the empty line before it. -/
def strip (text : List Char) : Except Error (List Char) := do
  match ← locate text with
  | some s =>
    let (before, after) ← around text s
    return dropSeparator before ++ after
  | none => return text

end Keyring.Managed

import Keyring.Text.Numeral
import Keyring.Yaml.Cursor

/-!
# Block scalars

A literal scalar keeps its line ends; a folded one joins lines that do not start
with a blank. Its header may give the indentation and say which of the line ends
after the last line are kept.
-/

namespace Keyring.Yaml

/-- Which of the line ends after the last line are kept. -/
inductive Chomp where
  | one
  | all
  | no
deriving DecidableEq

def chompOf? : Option Char → Option Chomp
  | some '+' => some .all
  | some '-' => some .no
  | _ => none

/-- A digit that gives an indentation; zero is refused. -/
def scanIndentDigit? (c : Cursor) : Option (Nat × Cursor) :=
  match c.peek 0 with
  | some d =>
    if Text.isDigit d then
      if d = '0' then none else some (d.toNat - '0'.toNat, c.skip 1)
    else some (0, c)
  | none => some (0, c)

/-- The marks after `|` or `>`, in either order. -/
def scanBlockHeader? (c : Cursor) : Option (Chomp × Nat × Cursor) := do
  match chompOf? (c.peek 0) with
  | some chomp =>
    let (increment, c) ← scanIndentDigit? (c.skip 1)
    some (chomp, increment, c)
  | none =>
    let (increment, c) ← scanIndentDigit? c
    match if increment = 0 then none else chompOf? (c.peek 0) with
    | some chomp => some (chomp, increment, c.skip 1)
    | none => some (.one, increment, c)

/-- Empty lines and the indentation of the next one. While no indentation is known (`0`) all
spaces count; the widest line is remembered. -/
def scanEmptyLines? (indent : Nat) : Nat → Nat → List Char → Cursor → Option (Nat × List Char × Cursor)
  | 0, _, _, _ => none
  | fuel + 1, widest, breaks, c =>
    let spaces := (c.run (· = ' ')).length
    let c := c.skip (if indent = 0 then spaces else min spaces (indent - c.column))
    let widest := max widest c.column
    if (indent = 0 || c.column < indent) && c.sees '\t' then none
    else if c.atLineEnd then
      scanEmptyLines? indent fuel widest (breaks ++ c.breakHere) c.nextLine
    else some (widest, breaks, c)

/-- A line of a block scalar with what joins it to the line before. -/
def joinLine (literal before after : Bool) (lastBreak breaks : List Char) : List Char :=
  if !literal && lastBreak = ['\n'] && !before && !after then
    (if breaks = [] then [' '] else []) ++ breaks
  else lastBreak ++ breaks

/-- The lines of a block scalar that stand at its indentation; `before` says that the line before
starts with a blank. At most `size` characters are left. -/
def scanBlockLines? (literal : Bool) (chomp : Chomp) (indent size : Nat) :
    Nat → Bool → List Char → List Char → List Char → Cursor → Option (List Char × Cursor)
  | 0, _, _, _, _, _ => none
  | fuel + 1, before, acc, lastBreak, breaks, c =>
    if c.column = indent && !c.atEnd then do
      let after := c.rest.head?.any isSpaceOrTab
      let line := c.run (!isLineEnd ·)
      let acc := acc ++ joinLine literal before after lastBreak breaks ++ line
      let c := c.skip line.length
      let lastBreak := c.breakHere
      let (_, breaks, c) ← scanEmptyLines? indent (size + 2) 0 [] c.nextLine
      scanBlockLines? literal chomp indent size fuel after acc lastBreak breaks c
    else
      let kept := match chomp with
        | .no => []
        | .one => lastBreak
        | .all => lastBreak ++ breaks
      some (acc ++ kept, c)

/-- A block scalar after its indicator, within a block of the given indentation (`-1` for none). At
most `size` characters are left. -/
def scanBlock? (literal : Bool) (outer : Int) (size : Nat) (c : Cursor) : Option (List Char × Cursor) := do
  let (chomp, increment, c) ← scanBlockHeader? c
  let c ← c.skipLineRest?
  let given := if increment = 0 then 0 else if 0 ≤ outer then outer.toNat + increment else increment
  let (widest, breaks, c) ← scanEmptyLines? given (size + 2) 0 [] c
  let indent := if given = 0 then max (max widest (outer + 1).toNat) 1 else given
  scanBlockLines? literal chomp indent size (size + 2) false [] [] breaks c

end Keyring.Yaml

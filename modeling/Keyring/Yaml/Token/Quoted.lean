import Keyring.Text.Numeral
import Keyring.Yaml.Cursor

/-!
# Scalars that run over lines

Plain and quoted scalars. Within them a single line end counts as a space, and
line ends beyond the first are kept.
-/

namespace Keyring.Yaml

/-- The blanks and line ends between two words of a scalar. -/
structure Gap where
  blanks : List Char
  breaks : List Char
  /-- A line ended within the gap. -/
  folded : Bool

def Gap.text (g : Gap) : List Char :=
  if !g.folded then g.blanks
  else match g.breaks with
    | '\n' :: [] => [' ']
    | '\n' :: more => more
    | breaks => breaks

/-- The gap at a cursor. After a line end no tab may stand left of the column `limit`. -/
def scanGap? (limit : Int) : Nat → Gap → Cursor → Option (Gap × Cursor)
  | 0, _, _ => none
  | fuel + 1, g, c =>
    match c.rest with
    | [] => some (g, c)
    | d :: _ =>
      if isSpaceOrTab d then
        if g.folded && c.column < limit && d = '\t' then none
        else scanGap? limit fuel (if g.folded then g else { g with blanks := g.blanks ++ [d] }) (c.skip 1)
      else if isLineEnd d then
        scanGap? limit fuel { g with breaks := g.breaks ++ c.breakHere, folded := true } c.nextLine
      else some (g, c)

def Gap.none : Gap := ⟨[], [], false⟩

/-- The character that a one-letter escape stands for. -/
def escapeOf? : Char → Option Char
  | '0' => some '\x00'
  | 'a' => some '\x07'
  | 'b' => some '\x08'
  | 't' | '\t' => some '\t'
  | 'n' => some '\n'
  | 'v' => some '\x0b'
  | 'f' => some '\x0c'
  | 'r' => some '\r'
  | 'e' => some '\x1b'
  | ' ' => some ' '
  | '"' => some '"'
  | '/' => some '/'
  | '\\' => some '\\'
  | 'N' => some '\u0085'
  | '_' => some '\u00a0'
  | 'L' => some '\u2028'
  | 'P' => some '\u2029'
  | _ => none

/-- The number of hexadecimal digits of an escape that spells a code point. -/
def escapeDigits? : Char → Option Nat
  | 'x' => some 2
  | 'u' => some 4
  | 'U' => some 8
  | _ => none

def scanEscape? (c : Cursor) : Option (Char × Cursor) := do
  let d ← c.peek 0
  match escapeDigits? d with
  | some n =>
    let digits := (c.skip 1).rest.take n
    let value ← if digits.length = n then Text.natOfDigits? 16 digits else none
    if value.isValidChar then some (Char.ofNat value, c.skip (n + 1)) else none
  | none => (escapeOf? d).map (·, c.skip 1)

/-- The part of a quoted scalar up to a gap or its closing quote; `true` when a line end
that was escaped ends it. -/
def scanQuotedWord? (single : Bool) :
    Nat → List Char → Cursor → Option (List Char × Bool × Cursor)
  | 0, _, _ => none
  | fuel + 1, acc, c =>
    match c.rest with
    | [] => some (acc.reverse, false, c)
    | d :: more =>
      if isGap d then some (acc.reverse, false, c)
      else if single && d = '\'' then
        if more.head? = some '\'' then scanQuotedWord? single fuel ('\'' :: acc) (c.skip 2)
        else some (acc.reverse, false, c)
      else if !single && d = '"' then some (acc.reverse, false, c)
      else if !single && d = '\\' then
        if more.head?.any isLineEnd then some (acc.reverse, true, (c.skip 1).nextLine)
        else match scanEscape? (c.skip 1) with
          | some (e, c) => scanQuotedWord? single fuel (e :: acc) c
          | none => none
      else scanQuotedWord? single fuel (d :: acc) (c.skip 1)

/-- A quoted scalar after its opening quote, with its text and what follows the closing one. At most
`size` characters are left. -/
def scanQuoted? (single : Bool) (size : Nat) :
    Nat → List Char → Cursor → Option (List Char × Cursor)
  | 0, _, _ => none
  | fuel + 1, acc, c =>
    if c.seesDocumentLine || c.atEnd then none
    else do
      let (word, escaped, c) ← scanQuotedWord? single (size + 1) [] c
      if c.sees (if single then '\'' else '"') then some (acc ++ word, c.skip 1)
      else
        let (gap, c) ← scanGap? 0 (size + 1) { Gap.none with folded := escaped } c
        scanQuoted? single size fuel (acc ++ word ++ if escaped then gap.breaks else gap.text) c

def isFlowMark (c : Char) : Bool := c = ',' || c = '[' || c = ']' || c = '{' || c = '}'

/-- The part of a plain scalar up to a gap or its end. Within flow collections a colon may not
stand before a mark of theirs. -/
def scanPlainWord? (inFlow : Bool) : Nat → List Char → Cursor → Option (List Char × Cursor)
  | 0, _, _ => none
  | fuel + 1, acc, c =>
    match c.rest with
    | [] => some (acc.reverse, c)
    | d :: more =>
      if isGap d then some (acc.reverse, c)
      else if inFlow && d = ':' && more.head?.any (fun e => isFlowMark e || e = '?') then none
      else if (d = ':' && endOr isGap more.head?) || (inFlow && isFlowMark d) then
        some (acc.reverse, c)
      else scanPlainWord? inFlow fuel (d :: acc) (c.skip 1)

/-- A plain scalar, and whether a line ended after its last word. Its lines stand right of the
column before `limit`, and at most `size` characters are left. -/
def scanPlain? (inFlow : Bool) (limit : Int) (size : Nat) :
    Nat → List Char → Gap → Cursor → Option (List Char × Bool × Cursor)
  | 0, _, _, _ => none
  | fuel + 1, acc, gap, c =>
    if c.seesDocumentLine || c.sees '#' then some (acc, gap.folded, c)
    else do
      let (word, c) ← scanPlainWord? inFlow (size + 1) [] c
      let acc := if word = [] then acc else acc ++ gap.text ++ word
      if !c.rest.head?.any isGap then some (acc, word = [] && gap.folded, c)
      else
        let (gap, c) ← scanGap? limit (size + 1) Gap.none c
        if !inFlow && c.column < limit then some (acc, gap.folded, c)
        else scanPlain? inFlow limit size fuel acc gap c

end Keyring.Yaml

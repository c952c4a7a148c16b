import Keyring.Document.Data
import Keyring.Text.Numeral
import Keyring.Yaml.Cursor
import Keyring.Yaml.Scalar
import Keyring.Yaml.Token

/-!
# Data written as YAML

Records and lists are written as blocks, two spaces a level. A text stands plain
where it reads back as itself, else in quotes; one with line feeds stands as a
literal block where that can hold it.
-/

namespace Keyring.Yaml

/-- A character that may stand unescaped. -/
def isPrintable (c : Char) : Bool :=
  let n := c.toNat
  n = 10 || (0x20 ≤ n && n ≤ 0x7E) || (0xA0 ≤ n && n ≤ 0xD7FF) ||
    (0xE000 ≤ n && n ≤ 0xFFFD && n ≠ 0xFEFF) || 0x10000 ≤ n

/-- Two characters of two kinds side by side. -/
def hasPair (first second : Char → Bool) : List Char → Bool
  | a :: b :: rest => (first a && second b) || hasPair first second (b :: rest)
  | _ => false

def isSpace (c : Char) : Bool := c = ' '

/-- A colon before a gap or the end, or a sharp after a gap. -/
def hasInnerMark : List Char → Bool
  | ':' :: rest => endOr isGap rest.head? || hasInnerMark rest
  | c :: '#' :: rest => isGap c || hasInnerMark ('#' :: rest)
  | _ :: rest => hasInnerMark rest
  | [] => false

/-- The marks that have a meaning at the start of a scalar. -/
def startsWithMark : List Char → Bool
  | [] => false
  | c :: rest =>
    "#,[]{}&*!|>'\"%@\x60".toList.contains c
      || ((c = '?' || c = ':' || c = '-') && endOr isGap rest.head?)

/-- What looks like the line that starts or ends a document. -/
def startsWithRule (cs : List Char) : Bool :=
  cs.take 3 = ['-', '-', '-'] || cs.take 3 = ['.', '.', '.']

/-- No style but double quotes can hold these. -/
def needsEscapes (cs : List Char) : Bool :=
  cs.any (!isPrintable ·) || hasPair isSpace isLineEnd cs

def allowsPlain (cs : List Char) : Bool :=
  !(needsEscapes cs || cs.any isLineEnd || startsWithMark cs || hasInnerMark cs
    || startsWithRule cs || cs.head?.any isSpace || cs.getLast?.any isSpace)

def allowsSingleQuoted (cs : List Char) : Bool :=
  !(needsEscapes cs || hasPair isLineEnd isSpace cs)

def allowsLiteral (cs : List Char) : Bool :=
  !(cs = [] || needsEscapes cs || cs.getLast?.any isSpace)

/-- The style in which a text is written. -/
def styleOf (s : String) : Style :=
  let cs := s.toList
  if cs.contains '\n' then if allowsLiteral cs then .literal else .doubleQuoted
  else if !readsAsOther s && allowsPlain cs then .plain
  else if allowsSingleQuoted cs then .singleQuoted
  else .doubleQuoted

def spaces (n : Nat) : List Char := List.replicate n ' '

/-- Lines after the first are indented. A line feed that starts a row of line ends is doubled, so
that folding gives it back. -/
def singleQuotedBody (indent : Nat) : Bool → List Char → List Char
  | breaks, [] => if breaks then spaces indent else []
  | breaks, c :: rest =>
    if isLineEnd c then
      (if !breaks && c = '\n' then ['\n'] else []) ++ c :: singleQuotedBody indent true rest
    else if c = ' ' then c :: singleQuotedBody indent breaks rest
    else
      (if breaks then spaces indent else []) ++ (if c = '\'' then ['\''] else [])
        ++ c :: singleQuotedBody indent false rest

def escapeLetter? (c : Char) : Option Char :=
  match c with
  | '\x00' => some '0'
  | '\x07' => some 'a'
  | '\x08' => some 'b'
  | '\t' => some 't'
  | '\n' => some 'n'
  | '\x0b' => some 'v'
  | '\x0c' => some 'f'
  | '\r' => some 'r'
  | '\x1b' => some 'e'
  | '"' => some '"'
  | '\\' => some '\\'
  | '\u0085' => some 'N'
  | '\u00a0' => some '_'
  | '\u2028' => some 'L'
  | '\u2029' => some 'P'
  | _ => none

/-- A code point in upper-case hexadecimal digits. -/
def codeEscape (n : Nat) : List Char :=
  let digits := fun width => (Text.hexPadded width n).map Char.toUpper
  if n ≤ 0xFF then 'x' :: digits 2
  else if n ≤ 0xFFFF then 'u' :: digits 4
  else 'U' :: digits 8

def doubleQuotedChar (c : Char) : List Char :=
  if isPrintable c && !isLineEnd c && c ≠ '"' && c ≠ '\\' then [c]
  else match escapeLetter? c with
    | some d => ['\\', d]
    | none => '\\' :: codeEscape c.toNat

/-- The marks after the bar of a literal scalar: the indentation where the first line does not show
it, and which line ends at the end count. -/
def literalHeader (cs : List Char) : List Char :=
  let indent := if cs.head?.any fun c => c = ' ' || isLineEnd c then ['2'] else []
  let chomp := match cs.reverse with
    | a :: b :: _ => if !isLineEnd a then ['-'] else if isLineEnd b then ['+'] else []
    | a :: [] => if isLineEnd a then ['+'] else ['-']
    | [] => ['-']
  indent ++ chomp

def literalBody (indent : Nat) : Bool → List Char → List Char
  | _, [] => []
  | breaks, c :: rest =>
    if isLineEnd c then c :: literalBody indent true rest
    else (if breaks then spaces indent else []) ++ c :: literalBody indent false rest

/-- A text on the line of its field, with its line end. Further lines have an indentation. -/
def textLines (indent : Nat) (s : String) : List Char :=
  let cs := s.toList
  match styleOf s with
  | .literal =>
    let body := literalBody indent true cs
    '|' :: literalHeader cs ++ '\n' :: body
      ++ (if cs.getLast?.any isLineEnd then [] else ['\n'])
  | .singleQuoted => '\'' :: singleQuotedBody indent false cs ++ ['\'', '\n']
  | .doubleQuoted => '"' :: cs.flatMap doubleQuotedChar ++ ['"', '\n']
  | _ => cs ++ ['\n']

/-- A number, flag or null. -/
def plainWord : Data → List Char
  | .flag true => "true".toList
  | .flag false => "false".toList
  | .number n => Text.integer n
  | _ => "null".toList

/-- The lines of a block after its key, or from the dash of its item on. -/
def blockAfter (item : Bool) (indent : Nat) (lines : List Char) : List Char :=
  if item then ' ' :: lines.drop indent else '\n' :: lines

mutual

/-- A value after its key or after the dash of its item, with its line end. The list of a field
stands at the indentation of the field. -/
def valueLines (item : Bool) (indent : Nat) : Data → List Char
  | .text s => ' ' :: textLines (indent + 2) s
  | .list [] => " []\n".toList
  | .list (d :: rest) =>
    let inner := if item then indent + 2 else indent
    blockAfter item inner (itemLines inner (d :: rest))
  | .record [] => " {}\n".toList
  | .record (f :: rest) => blockAfter item (indent + 2) (fieldLines (indent + 2) (f :: rest))
  | d => ' ' :: plainWord d ++ ['\n']

def itemLines (indent : Nat) : List Data → List Char
  | [] => []
  | d :: rest => spaces indent ++ '-' :: valueLines true indent d ++ itemLines indent rest

def fieldLines (indent : Nat) : List (String × Data) → List Char
  | [] => []
  | (name, d) :: rest =>
    spaces indent ++ name.toList ++ ':' :: valueLines false indent d ++ fieldLines indent rest

end

def documentText : Data → String
  | .record fields => String.ofList (fieldLines 0 fields)
  | d => String.ofList (plainWord d ++ ['\n'])

end Keyring.Yaml

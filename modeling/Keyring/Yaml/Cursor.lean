/-!
# Places in a YAML text

A cursor is what is still to be read, with the line and column where it stands.
The end of the text counts as a blank and as the end of a line.
-/

namespace Keyring.Yaml

def isLineEnd (c : Char) : Bool :=
  c = '\n' || c = '\r' || c = '\u0085' || c = '\u2028' || c = '\u2029'

def isSpaceOrTab (c : Char) : Bool := c = ' ' || c = '\t'

/-- A letter, digit, hyphen or underscore. -/
def isWordChar (c : Char) : Bool := c.isAlphanum || c = '_' || c = '-'

def isMark (c : Char) : Bool := c = '\uFEFF'

/-- The characters that a text may hold. -/
def isAllowed (c : Char) : Bool :=
  let n := c.toNat
  n = 9 || n = 10 || n = 13 || (0x20 ≤ n && n ≤ 0x7E) || n = 0x85 || (0xA0 ≤ n && n ≤ 0xD7FF) ||
    (0xE000 ≤ n && n ≤ 0xFFFD) || 0x10000 ≤ n

/-- No character, or one that satisfies a test. -/
def endOr (test : Char → Bool) (c : Option Char) : Bool := c.all test

def isGap (c : Char) : Bool := isSpaceOrTab c || isLineEnd c

structure Cursor where
  rest : List Char
  line : Nat
  column : Nat
  /-- How many bytes were read. -/
  index : Nat

namespace Cursor

def start (cs : List Char) : Cursor := ⟨cs, 0, 0, 0⟩

def peek (c : Cursor) (n : Nat) : Option Char := c.rest[n]?

def atEnd (c : Cursor) : Bool := c.rest.isEmpty

def sees (c : Cursor) (d : Char) : Bool := c.rest.head? = some d

/-- What comes `n` places ahead is a blank, the end of a line or the end of the text. -/
def gapAt (c : Cursor) (n : Nat) : Bool := endOr isGap (c.peek n)

def atLineEnd (c : Cursor) : Bool := c.rest.head?.any isLineEnd

/-- The line ends here, or the text does. -/
def lineOver (c : Cursor) : Bool := endOr isLineEnd c.rest.head?

/-- Past `n` characters of a line. -/
def skip (c : Cursor) (n : Nat) : Cursor :=
  { c with
    rest := c.rest.drop n
    column := c.column + n
    index := c.index + ((c.rest.take n).map Char.utf8Size).foldl Nat.add 0 }

/-- Past the end of a line; a carriage return and a line feed end one line together. -/
def nextLine (c : Cursor) : Cursor :=
  match c.rest with
  | '\r' :: '\n' :: rest => ⟨rest, c.line + 1, 0, c.index + 2⟩
  | d :: rest => ⟨rest, c.line + 1, 0, c.index + d.utf8Size⟩
  | [] => c

/-- The end of the line as it counts in a scalar: a line feed, save for the two separators. -/
def breakHere (c : Cursor) : List Char :=
  match c.rest with
  | d :: _ => if !isLineEnd d then [] else if d = '\u2028' || d = '\u2029' then [d] else ['\n']
  | [] => []

/-- The characters up to the first that fails a test. -/
def run (c : Cursor) (test : Char → Bool) : List Char := c.rest.takeWhile test

def skipWhile (c : Cursor) (test : Char → Bool) : Cursor := c.skip (c.run test).length

def skipBlanks (c : Cursor) : Cursor := c.skipWhile isSpaceOrTab

/-- To the end of the line when a comment starts here. -/
def skipComment (c : Cursor) : Cursor :=
  if c.sees '#' then c.skipWhile (!isLineEnd ·) else c

/-- Past the rest of a line that may hold a comment only. -/
def skipLineRest? (c : Cursor) : Option Cursor :=
  let c := c.skipBlanks.skipComment
  if c.lineOver then some c.nextLine else none

/-- Three equal characters at the start of a line, followed by a gap. -/
def seesRule (c : Cursor) (d : Char) : Bool :=
  c.column = 0 && c.rest.take 3 = [d, d, d] && c.gapAt 3

/-- A line that starts or ends a document. -/
def seesDocumentLine (c : Cursor) : Bool := c.seesRule '-' || c.seesRule '.'

end Cursor

end Keyring.Yaml

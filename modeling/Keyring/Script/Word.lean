import Keyring.Text.Numeral
import Keyring.Text.Utf8

/-!
# Words of a script

A script is a row of bytes, each the character of its number. Quotes and dollar
signs are told apart while it is read; what stands for a value is replaced only
when the word is used.
-/

namespace Keyring.Script

/-- Bytes, each as the character of its number. -/
abbrev Bytes := List Char

def bytesOfText (s : String) : Bytes := (Text.utf8Bytes s).map fun b => Char.ofNat b.toNat

def byteValues (b : Bytes) : List UInt8 := b.map fun c => UInt8.ofNat c.toNat

/-- A part of a word; what is quoted is not split into fields. -/
inductive Piece where
  | plain (quoted : Bool) (s : Bytes)
  | parameter (quoted : Bool) (name : Bytes)
  | sum (quoted : Bool) (expression : Bytes)
deriving DecidableEq, Repr

abbrev Word := List Piece

def Piece.isQuoted : Piece → Bool
  | .plain quoted _ | .parameter quoted _ | .sum quoted _ => quoted

/-- The text of a piece that is not quoted and stands for itself. -/
def Piece.bare? : Piece → Option Bytes
  | .plain false s => some s
  | _ => none

/-- The text of a word that has no quotes and nothing to replace. -/
def Word.bare? (w : Word) : Option Bytes := (w.mapM Piece.bare?).map List.flatten

def isBlank (c : Char) : Bool := c = ' ' || c = '\t'

def isNameChar (c : Char) : Bool := c.isAlphanum || c = '_'

def isName : Bytes → Bool
  | [] => false
  | c :: rest => isNameChar c && !Text.isDigit c && rest.all isNameChar

/-- Parameters of one character that is no letter. -/
def specials : List Char := ['@', '*', '#', '?', '$']

/-- Characters that end a word unless they are quoted. -/
def endsWord (c : Char) : Bool := isBlank c || ['\n', ';', '&', '|', '(', ')', '<', '>'].contains c

/-- The text of a sum up to its two closing brackets, and what follows them. -/
def sumText : Nat → Bytes → Option (Bytes × Bytes)
  | _, [] => none
  | depth, c :: rest =>
    if depth = 0 ∧ c = ')' then
      if rest.head? = some ')' then some ([], rest.drop 1) else none
    else
      let depth := if c = '(' then depth + 1 else if c = ')' then depth - 1 else depth
      (sumText depth rest).map fun (s, after) => (c :: s, after)

/-- What a dollar sign stands for, by what follows it. -/
def afterDollar (quoted : Bool) : Bytes → Option (Piece × Bytes)
  | '(' :: '(' :: rest => (sumText 0 rest).map fun (s, after) => (.sum quoted s, after)
  | '(' :: _ => none
  | '{' :: rest =>
    let name := rest.takeWhile (· ≠ '\x7d')
    let known := isName name || (name ≠ [] && name.all Text.isDigit) ||
      specials.any fun c => name = [c]
    if known && name.length < rest.length then
      some (.parameter quoted name, rest.drop (name.length + 1))
    else none
  | c :: rest =>
    if specials.contains c || Text.isDigit c then some (.parameter quoted [c], rest)
    else if isNameChar c then
      let name := (c :: rest).takeWhile isNameChar
      some (.parameter quoted name, (c :: rest).drop name.length)
    else some (.plain quoted ['$'], c :: rest)
  | [] => some (.plain quoted ['$'], [])

/-- What a backslash and a character stand for, within double quotes and outside. -/
def escaped (quoted : Bool) (c : Char) : Bytes :=
  if !quoted || ['$', '\x60', '"', '\\'].contains c then [c] else ['\\', c]

/-- The word at the start of some bytes and the rest; `quoted` within double quotes. -/
def scanWord : Nat → Bool → Bytes → Option (Word × Bytes)
  | 0, _, _ => none
  | _ + 1, quoted, [] => if quoted then none else some ([], [])
  | fuel + 1, quoted, c :: rest =>
    let piece := fun (p : Piece) (quoted : Bool) (rest : Bytes) =>
      (scanWord fuel quoted rest).map fun (w, after) => (p :: w, after)
    if !quoted && endsWord c then some ([], c :: rest)
    else if c = '\x60' then none
    else if c = '"' then
      if !quoted && rest.head? = some '"' then piece (.plain true []) false (rest.drop 1)
      else scanWord fuel (!quoted) rest
    else if c = '\\' then
      match rest with
      | '\n' :: rest => scanWord fuel quoted rest
      | d :: rest => piece (.plain true (escaped quoted d)) quoted rest
      | [] => piece (.plain true ['\\']) quoted []
    else if c = '$' then (afterDollar quoted rest).bind fun (p, rest) => piece p quoted rest
    else if !quoted && c = '\'' then
      let s := rest.takeWhile (· ≠ '\'')
      if s.length < rest.length then piece (.plain true s) false (rest.drop (s.length + 1)) else none
    else piece (.plain quoted [c]) quoted rest

inductive Token where
  | word (w : Word)
  /-- The end of a line. -/
  | lineEnd
  /-- A control operator such as the semicolon. -/
  | operator (s : Bytes)
  /-- `>` or `<` for a channel; a word follows that says where it leads. -/
  | redirection (channel : Nat) (reads : Bool)
deriving DecidableEq, Repr

/-- A redirection sign with the number of its channel. -/
def redirection? (cs : Bytes) : Option (Token × Bytes) :=
  let digits := cs.takeWhile Text.isDigit
  match cs.drop digits.length with
  | '>' :: '&' :: rest => some (.redirection ((Text.natOfDigits? 10 digits).getD 1) false, '\x26' :: rest)
  | '>' :: rest => some (.redirection ((Text.natOfDigits? 10 digits).getD 1) false, rest)
  | '<' :: rest => some (.redirection ((Text.natOfDigits? 10 digits).getD 0) true, rest)
  | _ => none

def operator? : Bytes → Option (Bytes × Bytes)
  | '&' :: '&' :: rest => some (['&', '&'], rest)
  | '|' :: '|' :: rest => some (['|', '|'], rest)
  | ';' :: ';' :: rest => some ([';', ';'], rest)
  | '|' :: rest => some (['|'], rest)
  | ';' :: rest => some ([';'], rest)
  | '(' :: rest => some (['('], rest)
  | ')' :: rest => some ([')'], rest)
  | _ => none

/-- A word that starts with an ampersand: the channel that another one is to follow. -/
def channelWord? : Bytes → Option (Word × Bytes)
  | '&' :: c :: rest => if Text.isDigit c then some ([.plain false ['&', c]], rest) else none
  | _ => none

/-- The tokens of a script with their lines, `none` where it cannot be read. -/
def tokens : Nat → Nat → Bytes → Option (List (Token × Nat))
  | _, _, [] => some []
  | 0, _, _ => none
  | fuel + 1, line, c :: rest =>
    if c = '\n' then do return (.lineEnd, line) :: (← tokens fuel (line + 1) rest)
    else if isBlank c then tokens fuel line rest
    else if c = '#' then tokens fuel line (rest.dropWhile (· ≠ '\n'))
    else if c = '\\' ∧ rest.head? = some '\n' then tokens fuel (line + 1) (rest.drop 1)
    else if let some (t, rest) := redirection? (c :: rest) then
      match channelWord? rest with
      | some (w, rest) => do return (t, line) :: (.word w, line) :: (← tokens fuel line rest)
      | none => do return (t, line) :: (← tokens fuel line rest)
    else if let some (s, rest) := operator? (c :: rest) then
      do return (.operator s, line) :: (← tokens fuel line rest)
    else do
      let (w, after) ← scanWord (rest.length + 2) false (c :: rest)
      if w = [] ∧ after.length = rest.length + 1 then none
      else return (.word w, line) :: (← tokens fuel (line + (rest.count '\n' - after.count '\n')) after)

def tokensOf (cs : Bytes) : Option (List (Token × Nat)) := tokens (cs.length + 1) 1 cs

end Keyring.Script

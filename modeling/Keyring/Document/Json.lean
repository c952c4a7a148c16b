import Keyring.Document.Data
import Keyring.Text.Numeral

/-!
# Data read from JSON

A text holds one value between blanks. Fields keep their order and may repeat;
numbers are whole when they are spelled without fraction and exponent.
-/

namespace Keyring.Json

open Keyring.Text

def isSpace (c : Char) : Bool := c = ' ' || c = '\t' || c = '\n' || c = '\r'

def skipSpaces (cs : List Char) : List Char := cs.dropWhile isSpace

/-- A sixteen-bit unit in four hexadecimal digits. -/
def unit? : List Char → Option (Nat × List Char)
  | a :: b :: c :: d :: rest => (natOfDigits? 16 [a, b, c, d]).map (·, rest)
  | _ => none

def isHighHalf (n : Nat) : Bool := 0xD800 ≤ n && n ≤ 0xDBFF
def isLowHalf (n : Nat) : Bool := 0xDC00 ≤ n && n ≤ 0xDFFF

def escapeOf? : Char → Option Char
  | '"' => some '"'
  | '\\' => some '\\'
  | '/' => some '/'
  | 'b' => some '\x08'
  | 'f' => some '\x0c'
  | 'n' => some '\n'
  | 'r' => some '\r'
  | 't' => some '\t'
  | _ => none

/-- The units of a string up to its closing quote, a character outside the escapes `\u` as itself.
A unit that is half a character is kept as such. -/
inductive Piece where
  | char (c : Char)
  | unit (n : Nat)

def pieces? : Nat → List Char → Option (List Piece × List Char)
  | 0, _ => none
  | _ + 1, [] => none
  | _ + 1, '"' :: rest => some ([], rest)
  | fuel + 1, '\\' :: 'u' :: rest => do
    let (n, rest) ← unit? rest
    let (more, rest) ← pieces? fuel rest
    some (.unit n :: more, rest)
  | fuel + 1, '\\' :: c :: rest => do
    let d ← escapeOf? c
    let (more, rest) ← pieces? fuel rest
    some (.char d :: more, rest)
  | fuel + 1, c :: rest =>
    if c.toNat < 32 || c = '\\' then none
    else do
      let (more, rest) ← pieces? fuel rest
      some (.char c :: more, rest)

/-- The characters that pieces spell; `none` where half a character stands alone. -/
def joinPieces? : List Piece → Option (List Char)
  | [] => some []
  | .char c :: rest => (joinPieces? rest).map (c :: ·)
  | .unit n :: .unit m :: rest =>
    if isHighHalf n && isLowHalf m then
      (joinPieces? rest).map (Char.ofNat (0x10000 + (n - 0xD800) * 1024 + (m - 0xDC00)) :: ·)
    else if isHighHalf n || isLowHalf n then none
    else (joinPieces? (.unit m :: rest)).map (Char.ofNat n :: ·)
  | .unit n :: rest =>
    if isHighHalf n || isLowHalf n then none
    else (joinPieces? rest).map (Char.ofNat n :: ·)

/-- A string after its opening quote; its text is `none` where half a character stands alone. -/
def string? (fuel : Nat) (cs : List Char) : Option (Option String × List Char) := do
  let (ps, rest) ← pieces? fuel cs
  some ((joinPieces? ps).map String.ofList, rest)

/-- The digits of a whole number: a zero stands alone. -/
def wholeDigits? : List Char → Option (List Char × List Char)
  | '0' :: rest => if rest.head?.any isDigit then none else some (['0'], rest)
  | cs =>
    let digits := cs.takeWhile isDigit
    if digits = [] then none else some (digits, cs.dropWhile isDigit)

/-- What follows the digits of a fraction, if there is one. -/
def skipFraction? : List Char → Option (Bool × List Char)
  | '.' :: rest =>
    if rest.head?.any isDigit then some (true, rest.dropWhile isDigit) else none
  | cs => some (false, cs)

/-- What follows an exponent, if there is one. -/
def skipExponent? : List Char → Option (Bool × List Char)
  | c :: rest =>
    if c = 'e' || c = 'E' then
      let digits := match rest with
        | '+' :: more | '-' :: more => more
        | _ => rest
      if digits.head?.any isDigit then some (true, digits.dropWhile isDigit) else none
    else some (false, c :: rest)
  | [] => some (false, [])

/-- A whole number, or `unreadable` for one with a fraction, an exponent or a negative zero. -/
def number? (negative : Bool) (cs : List Char) : Option (Data × List Char) := do
  let (digits, cs) ← wholeDigits? cs
  let n ← natOfDigits? 10 digits
  let (fraction, cs) ← skipFraction? cs
  let (exponent, cs) ← skipExponent? cs
  let value : Data :=
    if fraction || exponent || (negative && n = 0) then .unreadable
    else .number (if negative then -(n : Int) else n)
  some (value, cs)

def word? (word : List Char) (cs : List Char) : Option (List Char) :=
  if word.isPrefixOf cs then some (cs.drop word.length) else none

/-- A record; one with a name that spells no text cannot be read. -/
def recordOf (fields : List (Option String × Data)) : Data :=
  match fields.mapM fun (name, d) => name.map (·, d) with
  | some named => .record named
  | none => .unreadable

mutual

/-- The value at the start of a text and what follows it. -/
def value? : Nat → List Char → Option (Data × List Char)
  | 0, _ => none
  | fuel + 1, cs =>
    match skipSpaces cs with
    | '"' :: rest => (string? (fuel + 1) rest).map fun (s, rest) => ((s.map Data.text).getD .unreadable, rest)
    | '[' :: rest =>
      match skipSpaces rest with
      | ']' :: rest => some (.list [], rest)
      | rest => (items? fuel rest).map fun (items, rest) => (.list items, rest)
    | '{' :: rest =>
      match skipSpaces rest with
      | '}' :: rest => some (.record [], rest)
      | rest => (fields? fuel rest).map fun (fields, rest) => (recordOf fields, rest)
    | 't' :: rest => (word? "rue".toList rest).map (Data.flag true, ·)
    | 'f' :: rest => (word? "alse".toList rest).map (Data.flag false, ·)
    | 'n' :: rest => (word? "ull".toList rest).map (Data.null, ·)
    | '-' :: rest => number? true rest
    | rest => number? false rest

/-- The items of a list, up to its closing bracket. -/
def items? : Nat → List Char → Option (List Data × List Char)
  | 0, _ => none
  | fuel + 1, cs => do
    let (d, rest) ← value? fuel cs
    match skipSpaces rest with
    | ',' :: rest =>
      let (more, rest) ← items? fuel rest
      some (d :: more, rest)
    | ']' :: rest => some ([d], rest)
    | _ => none

/-- The fields of a record, up to its closing brace. -/
def fields? : Nat → List Char → Option (List (Option String × Data) × List Char)
  | 0, _ => none
  | fuel + 1, cs =>
    match skipSpaces cs with
    | '"' :: rest => do
      let (name, rest) ← string? (fuel + 1) rest
      match skipSpaces rest with
      | ':' :: rest =>
        let (d, rest) ← value? fuel rest
        match skipSpaces rest with
        | ',' :: rest =>
          let (more, rest) ← fields? fuel rest
          some ((name, d) :: more, rest)
        | '}' :: rest => some ([(name, d)], rest)
        | _ => none
      | _ => none
    | _ => none

end

/-- The data of a whole JSON text. Each level, each item and each piece of a string uses at least one
character. -/
def read? (s : String) : Option Data :=
  match value? (2 * s.length + 2) s.toList with
  | some (d, rest) => if skipSpaces rest = [] then some d else none
  | none => none

end Keyring.Json

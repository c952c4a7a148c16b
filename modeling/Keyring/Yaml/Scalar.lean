import Keyring.Text.Numeral

/-!
# What plain scalars mean

A plain scalar may be null, a flag or a number. A text that would be taken for
one of these is quoted when it is written.
-/

namespace Keyring.Yaml

open Text

def isNullWord (s : String) : Bool := s = "null" || s = "Null" || s = "NULL" || s = "~"

def flagOf? : String → Option Bool
  | "true" | "True" | "TRUE" => some true
  | "false" | "False" | "FALSE" => some false
  | _ => none

def withoutPlus : List Char → List Char
  | '+' :: rest => rest
  | cs => cs

def withoutSign : List Char → List Char
  | '+' :: rest | '-' :: rest => rest
  | cs => cs

/-- The base that a mark in front announces, and the digits after it. -/
def basedDigits? : List Char → Option (Nat × List Char)
  | '0' :: 'x' :: rest => some (16, rest)
  | '0' :: 'o' :: rest => some (8, rest)
  | '0' :: 'b' :: rest => some (2, rest)
  | _ => none

/-- Digits with a zero in front of others are no number. -/
def hasExtraZero (cs : List Char) : Bool :=
  match withoutSign cs with
  | '0' :: c :: rest => (c :: rest).all isDigit
  | _ => false

/-- A number that is not negative, in base ten or after a mark in another base. -/
def wholeOf? (s : String) : Option Nat :=
  let cs := withoutPlus s.toList
  match (basedDigits? cs).bind fun (base, digits) => natOfDigits? base digits with
  | some n => some n
  | none => if hasExtraZero s.toList then none else natOfDigits? 10 cs

/-- A number in another base than ten, of at most 128 bits with its sign. -/
def isBasedNumber (s : String) : Bool :=
  let (limit, cs) := match s.toList with
    | '-' :: rest => (Nat.pow 2 127, rest)
    | cs => (Nat.pow 2 128 - 1, withoutPlus cs)
  ((basedDigits? cs).bind fun (base, digits) => natOfDigits? base digits).any (· ≤ limit)

structure Decimal where
  digits : List Char
  /-- The power of ten that the digits are multiplied by. -/
  exponent : Int

/-- The exponent after `e`, if there is one. -/
def exponent? : List Char → Option Int
  | [] => some 0
  | c :: rest =>
    if c = 'e' || c = 'E' then
      match rest with
      | '-' :: digits => (natOfDigits? 10 digits).map fun n => -(n : Int)
      | digits => (natOfDigits? 10 (withoutPlus digits)).map fun n => (n : Int)
    else none

/-- Digits with a point among, before or after them, and an exponent. -/
def decimal? (cs : List Char) : Option Decimal :=
  let whole := cs.takeWhile isDigit
  let (fraction, rest) := match cs.dropWhile isDigit with
    | '.' :: rest => (rest.takeWhile isDigit, rest.dropWhile isDigit)
    | rest => ([], rest)
  if whole = [] ∧ fraction = [] then none
  else (exponent? rest).map fun e => ⟨whole ++ fraction, e - fraction.length⟩

/-- From here on a number is rounded up past the largest of double precision. -/
def doubleLimit : Nat := Nat.pow 2 1024 - Nat.pow 2 970

/-- Within double precision. Only where the number of digits leaves it open is it worked out. -/
def Decimal.isFinite (d : Decimal) : Bool :=
  let digits := d.digits.dropWhile (· = '0')
  let size := digits.length + d.exponent
  if digits = [] || size < 309 then true
  else if 309 < size then false
  else
    let n := (natOfDigits? 10 digits).getD 0
    n * Nat.pow 10 d.exponent.toNat < doubleLimit * Nat.pow 10 (-d.exponent).toNat

/-- A number of double precision, or a word for one that is infinite or none. -/
def isFractionText (s : String) : Bool :=
  let cs := s.toList
  let unsigned := withoutPlus cs
  let doubleSign := match cs with
    | '+' :: c :: _ => c = '+' || c = '-'
    | _ => false
  let number := match unsigned with
    | '-' :: rest => rest
    | rest => rest
  [".inf", ".Inf", ".INF"].any (fun w => unsigned = w.toList || cs = '-' :: w.toList)
    || [".nan", ".NaN", ".NAN"].contains s
    || (!doubleSign && (decimal? number).any Decimal.isFinite)

/-- A text that would be read as something else if it stood plain. -/
def readsAsOther (s : String) : Bool :=
  s.isEmpty || isNullWord s || (flagOf? s).isSome || isBasedNumber s || hasExtraZero s.toList
    || isFractionText s

end Keyring.Yaml

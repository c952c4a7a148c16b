/-!
# Numerals

Whole numbers in base ten, eight and sixteen, padded with zeros, and their reading.
-/

namespace Keyring.Text

def zeroPadded (width : Nat) (cs : List Char) : List Char :=
  List.replicate (width - cs.length) '0' ++ cs

def decimal (n : Nat) : List Char := Nat.toDigits 10 n

/-- A whole number in base ten, with a minus sign below zero. -/
def integer (n : Int) : List Char := if n < 0 then '-' :: decimal n.natAbs else decimal n.natAbs

/-- A decimal numeral of at least `width` digits. -/
def decimalPadded (width n : Nat) : List Char := zeroPadded width (decimal n)

def octal (n : Nat) : List Char := Nat.toDigits 8 n

def octalText (n : Nat) : String := String.ofList (octal n)

/-- A hexadecimal numeral in lower case of at least `width` digits. -/
def hexPadded (width n : Nat) : List Char := zeroPadded width (Nat.toDigits 16 n)

/-- The value of a digit below thirty-six, letters in either case. -/
def digitValue? (c : Char) : Option Nat :=
  if '0' ≤ c ∧ c ≤ '9' then some (c.toNat - '0'.toNat)
  else if 'a' ≤ c ∧ c ≤ 'z' then some (c.toNat - 'a'.toNat + 10)
  else if 'A' ≤ c ∧ c ≤ 'Z' then some (c.toNat - 'A'.toNat + 10)
  else none

/-- A nonempty run of digits of a base. -/
def natOfDigits? (base : Nat) (cs : List Char) : Option Nat :=
  if cs = [] then none
  else cs.foldl (fun acc c => do
    let n ← acc
    let d ← digitValue? c
    if d < base then some (n * base + d) else none) (some 0)

/-- A decimal number that may carry a plus sign. -/
def natOfText? (s : String) : Option Nat :=
  match s.toList with
  | '+' :: rest => natOfDigits? 10 rest
  | cs => natOfDigits? 10 cs

/-- A decimal number below a bound that may carry a plus sign. -/
def boundedNat? (bound : Nat) (s : String) : Option Nat :=
  (natOfText? s).filter (· < bound)

def isDigit (c : Char) : Bool := '0' ≤ c && c ≤ '9'

/-- The longest front of decimal digits, at most `most`, and the rest. -/
def spanDigits : Nat → List Char → List Char × List Char
  | 0, cs => ([], cs)
  | _ + 1, [] => ([], [])
  | most + 1, c :: rest =>
    if isDigit c then
      let (digits, after) := spanDigits most rest
      (c :: digits, after)
    else ([], c :: rest)

end Keyring.Text

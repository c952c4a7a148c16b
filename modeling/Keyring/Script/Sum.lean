import Keyring.Script.Word

/-!
# Sums in a script

Whole numbers, parameters and the four operations between them. What the
parameters stand for is given.
-/

namespace Keyring.Script

/-- The whole number that a value is; an empty one is zero. -/
def intOf? (s : Bytes) : Option Int :=
  match s with
  | [] => some 0
  | '-' :: digits => (Text.natOfDigits? 10 digits).map fun n => -n
  | '+' :: digits => (Text.natOfDigits? 10 digits).map Int.ofNat
  | digits => (Text.natOfDigits? 10 digits).map Int.ofNat

def skipBlanks (s : Bytes) : Bytes := s.dropWhile fun c => isBlank c || c = '\n'

mutual

/-- Terms added and taken away, from a first value on. -/
def sumFrom (value : Bytes → Bytes) : Nat → Int → Bytes → Option (Int × Bytes)
  | 0, _, _ => none
  | fuel + 1, n, s => do
    let (n, s) ← termFrom value fuel n s
    match skipBlanks s with
    | '+' :: rest => do
      let (m, rest) ← factorOf value fuel rest
      let (m, rest) ← termFrom value fuel m rest
      sumFrom value fuel (n + m) rest
    | '-' :: rest => do
      let (m, rest) ← factorOf value fuel rest
      let (m, rest) ← termFrom value fuel m rest
      sumFrom value fuel (n - m) rest
    | rest => some (n, rest)

/-- Factors multiplied and divided, from a first value on. A quotient is cut toward zero. -/
def termFrom (value : Bytes → Bytes) : Nat → Int → Bytes → Option (Int × Bytes)
  | 0, _, _ => none
  | fuel + 1, n, s =>
    match skipBlanks s with
    | '*' :: rest => do
      let (m, rest) ← factorOf value fuel rest
      termFrom value fuel (n * m) rest
    | '/' :: rest => do
      let (m, rest) ← factorOf value fuel rest
      if m = 0 then none else termFrom value fuel (n.tdiv m) rest
    | '%' :: rest => do
      let (m, rest) ← factorOf value fuel rest
      if m = 0 then none else termFrom value fuel (n.tmod m) rest
    | rest => some (n, rest)

/-- A number, a parameter or a sum in brackets. -/
def factorOf (value : Bytes → Bytes) : Nat → Bytes → Option (Int × Bytes)
  | 0, _ => none
  | fuel + 1, s =>
    match skipBlanks s with
    | '(' :: rest => do
      let (m, rest) ← factorOf value fuel rest
      let (m, rest) ← sumFrom value fuel m rest
      match skipBlanks rest with
      | ')' :: rest => some (m, rest)
      | _ => none
    | '-' :: rest => (factorOf value fuel rest).map fun (m, rest) => (-m, rest)
    | '$' :: rest =>
      match afterDollar true rest with
      | some (.parameter _ name, rest) => (intOf? (value name)).map (·, rest)
      | _ => none
    | rest =>
      let digits := rest.takeWhile Text.isDigit
      if digits ≠ [] then (intOf? digits).map (·, rest.drop digits.length)
      else
        let name := rest.takeWhile isNameChar
        if name = [] then none else (intOf? (value name)).map (·, rest.drop name.length)

end

/-- The value of a sum, `none` where it has none. -/
def sumValue? (value : Bytes → Bytes) (s : Bytes) : Option Int := do
  let fuel := 4 * s.length + 8
  let (m, rest) ← factorOf value fuel s
  let (n, rest) ← sumFrom value fuel m rest
  if skipBlanks rest = [] then some n else none

end Keyring.Script

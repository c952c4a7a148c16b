import Keyring.Text.Blank
import Keyring.Time.Instant

/-!
# Instants as text

An instant is written as `2026-03-01T09:00:00Z`, with three, six or nine digits of
a second where it has a fraction. Reading is laxer: blanks before numbers, a
space or a small letter for `T`, signed years of any length, an offset.
-/

namespace Keyring.Time.Instant

open Keyring.Text

/-- The fraction of a second in the fewest of three, six or nine digits. -/
def fractionText (nano : Nat) : List Char :=
  if nano = 0 then []
  else if nano % 1000000 = 0 then '.' :: decimalPadded 3 (nano / 1000000)
  else if nano % 1000 = 0 then '.' :: decimalPadded 6 (nano / 1000)
  else '.' :: decimalPadded 9 nano

/-- The text of an instant in the time zone UTC. -/
def rfc3339 (t : Instant) : List Char :=
  let s := t.secondOfDay
  let leap := if t.isLeap then 1 else 0
  t.date.text ['-'] ++ 'T' :: decimalPadded 2 (s / 3600) ++ ':' :: decimalPadded 2 (s / 60 % 60)
    ++ ':' :: decimalPadded 2 (s % 60 + leap) ++ fractionText (t.nano - leap * nanosPerSecond)
    ++ ['Z']

def text (t : Instant) : String := String.ofList t.rfc3339

/-- The date as `2026-03-01`. -/
def dateText (t : Instant) : String := String.ofList (t.date.text ['-'])

/-- The date as `20260301`. -/
def dateStamp (t : Instant) : String := String.ofList (t.date.text [])

def minuteText (t : Instant) : String :=
  let s := t.secondOfDay
  String.ofList (t.date.text ['-'] ++ ' ' :: decimalPadded 2 (s / 3600) ++ ':'
    :: decimalPadded 2 (s / 60 % 60)) ++ " UTC"

/-- The largest number that a text may spell. -/
def numberBound : Nat := Nat.pow 2 63

/-- A number of one to `most` digits at the start of a text. -/
def number? (most : Nat) (cs : List Char) : Option (Nat × List Char) := do
  let (digits, rest) := spanDigits most cs
  let n ← natOfDigits? 10 digits
  if n < numberBound then some (n, rest) else none

/-- A number within bounds, blanks before it skipped. -/
def boundedNumber? (most low high : Nat) (cs : List Char) : Option (Nat × List Char) := do
  let (n, rest) ← number? most (trimLeft cs)
  if low ≤ n ∧ n ≤ high then some (n, rest) else none

/-- A character, blanks before it skipped. -/
def mark? (c : Char) (cs : List Char) : Option (List Char) :=
  match trimLeft cs with
  | d :: rest => if c = d then some rest else none
  | [] => none

/-- A year: four digits at most, or a sign and any number of digits. -/
def year? (cs : List Char) : Option (Int × List Char) :=
  match trimLeft cs with
  | '-' :: rest => (number? rest.length rest).map fun (n, after) => (-(n : Int), after)
  | '+' :: rest => (number? rest.length rest).map fun (n, after) => ((n : Int), after)
  | rest => (number? 4 rest).map fun (n, after) => ((n : Int), after)

/-- Nanoseconds after a point; digits after the ninth are skipped. -/
def fraction? : List Char → Option (Nat × List Char)
  | '.' :: rest => do
    let (digits, after) := spanDigits 9 rest
    let n ← natOfDigits? 10 digits
    some (n * Nat.pow 10 (9 - digits.length), after.dropWhile isDigit)
  | cs => some (0, cs)

/-- Seconds east of UTC: `Z`, `UTC`, or a sign, two digits of hours and two of minutes. -/
def offset? (cs : List Char) : Option (Int × List Char) :=
  match cs with
  | 'Z' :: rest | 'z' :: rest => some (0, rest)
  | sign :: h :: i :: rest =>
    if [sign, h, i].map Char.toUpper = ['U', 'T', 'C'] then some (0, rest)
    else do
      let negative ←
        if sign = '+' then some false
        else if sign = '-' ∨ sign = '\u2212' then some true else none
      let hours ← if isDigit h && isDigit i then natOfDigits? 10 [h, i] else none
      match rest.dropWhile fun c => c = ':' || isBlank c with
      | m :: n :: after =>
        let minutes ← if isDigit m && isDigit n then natOfDigits? 10 [m, n] else none
        let east : Int := hours * 3600 + minutes * 60
        if minutes ≤ 59 ∧ east < 86400 then some (if negative then -east else east, after) else none
      | _ => none
  | _ => none

/-- The instant that a whole text spells. -/
def ofChars? (cs : List Char) : Option Instant := do
  let (year, cs) ← year? cs
  let cs ← mark? '-' cs
  let (month, cs) ← boundedNumber? 2 1 12 cs
  let cs ← mark? '-' cs
  let (day, cs) ← boundedNumber? 2 1 31 cs
  let cs ← match cs with
    | 'T' :: rest | 't' :: rest | ' ' :: rest => some rest
    | _ => none
  let (hour, cs) ← boundedNumber? 2 0 23 cs
  let cs ← mark? ':' cs
  let (minute, cs) ← boundedNumber? 2 0 59 cs
  let cs ← mark? ':' cs
  let (second, cs) ← boundedNumber? 2 0 60 cs
  let (nano, cs) ← fraction? cs
  let (east, cs) ← offset? (trimLeft cs)
  let date : Date := ⟨year, month, day⟩
  if trimLeft cs = [] ∧ date.Valid then
    let leap := if second = 60 then 1 else 0
    let local_ := ofDayAndSecond date.day (hour * 3600 + minute * 60 + second - leap)
      (nano + leap * nanosPerSecond)
    let t : Instant := ⟨local_.second - east, local_.nano⟩
    if t.InRange then some t else none
  else none

def ofText? (s : String) : Option Instant := ofChars? s.toList

end Keyring.Time.Instant

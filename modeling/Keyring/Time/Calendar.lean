import Keyring.Text.Numeral

/-!
# The calendar

Days counted from 1970-01-01 and their dates in the proleptic Gregorian
calendar. Each day number has one date (`Date.ofDay`), and `Date.day` leads back.
-/

namespace Keyring.Time

structure Date where
  year : Int
  month : Nat
  dayOfMonth : Nat
deriving DecidableEq, Repr

def isLeapYear (y : Int) : Bool := y % 4 = 0 ∧ (y % 100 ≠ 0 ∨ y % 400 = 0)

def daysInMonth (y : Int) : Nat → Nat
  | 2 => if isLeapYear y then 29 else 28
  | 4 | 6 | 9 | 11 => 30
  | _ => 31

/-- The years that a date may have. -/
def firstYear : Int := -262143
def lastYear : Int := 262142

/-- A date of the calendar within the years that are kept. -/
def Date.Valid (d : Date) : Prop :=
  firstYear ≤ d.year ∧ d.year ≤ lastYear ∧ 1 ≤ d.month ∧ d.month ≤ 12 ∧
    1 ≤ d.dayOfMonth ∧ d.dayOfMonth ≤ daysInMonth d.year d.month

instance (d : Date) : Decidable d.Valid := by unfold Date.Valid; infer_instance

/-- The number of a date's day. Years are counted from March, so that a leap day ends its year;
four hundred years have 146097 days. -/
def Date.day (d : Date) : Int :=
  let y := if d.month ≤ 2 then d.year - 1 else d.year
  let yearOfEra := y % 400
  let monthFromMarch : Int := if d.month ≤ 2 then d.month + 9 else d.month - 3
  let dayOfYear := (153 * monthFromMarch + 2) / 5 + d.dayOfMonth - 1
  y / 400 * 146097 + (yearOfEra * 365 + yearOfEra / 4 - yearOfEra / 100 + dayOfYear) - 719468

def Date.ofDay (n : Int) : Date :=
  let z := n + 719468
  let dayOfEra := z % 146097
  let yearOfEra := (dayOfEra - dayOfEra / 1460 + dayOfEra / 36524 - dayOfEra / 146096) / 365
  let dayOfYear := dayOfEra - (365 * yearOfEra + yearOfEra / 4 - yearOfEra / 100)
  let monthFromMarch := (5 * dayOfYear + 2) / 153
  let month := if monthFromMarch < 10 then monthFromMarch + 3 else monthFromMarch - 9
  let year := z / 146097 * 400 + yearOfEra
  { year := if month ≤ 2 then year + 1 else year
    month := month.toNat
    dayOfMonth := (dayOfYear - (153 * monthFromMarch + 2) / 5 + 1).toNat }

/-- Four digits, and a sign where four digits do not hold the year. -/
def yearText (y : Int) : List Char :=
  if 0 ≤ y ∧ y ≤ 9999 then Text.decimalPadded 4 y.toNat
  else (if y < 0 then '-' else '+') :: Text.decimalPadded 4 y.natAbs

/-- A date with a text between its parts. -/
def Date.text (between : List Char) (d : Date) : List Char :=
  yearText d.year ++ between ++ Text.decimalPadded 2 d.month ++ between ++
    Text.decimalPadded 2 d.dayOfMonth

end Keyring.Time

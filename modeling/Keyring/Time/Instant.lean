import Keyring.Time.Calendar

/-!
# Instants

A second counted from 1970-01-01T00:00:00Z and the nanoseconds into it. A leap
second is kept as the second before it with a billion nanoseconds or more.
-/

namespace Keyring.Time

structure Instant where
  second : Int
  nano : Nat
deriving DecidableEq, Repr, Inhabited

namespace Instant

def nanosPerSecond : Nat := 1000000000
def secondsPerDay : Int := 86400

/-- Within a leap second. -/
def isLeap (t : Instant) : Bool := nanosPerSecond ≤ t.nano

/-- Instants are ordered by second, then by nanosecond. -/
protected def le (a b : Instant) : Prop :=
  a.second < b.second ∨ a.second = b.second ∧ a.nano ≤ b.nano

protected def lt (a b : Instant) : Prop :=
  a.second < b.second ∨ a.second = b.second ∧ a.nano < b.nano

instance : LE Instant := ⟨Instant.le⟩
instance : LT Instant := ⟨Instant.lt⟩

instance (a b : Instant) : Decidable (a ≤ b) := by unfold LE.le instLE Instant.le; infer_instance
instance (a b : Instant) : Decidable (a < b) := by unfold LT.lt instLT Instant.lt; infer_instance

def dayNumber (t : Instant) : Int := t.second / secondsPerDay

def secondOfDay (t : Instant) : Nat := (t.second % secondsPerDay).toNat

def date (t : Instant) : Date := Date.ofDay t.dayNumber

def ofDayAndSecond (day : Int) (second : Nat) (nano : Nat) : Instant :=
  ⟨day * secondsPerDay + second, nano⟩

/-- The last day that is kept. -/
def lastDay : Int := (Date.mk lastYear 12 31).day

def firstDay : Int := (Date.mk firstYear 1 1).day

def InRange (t : Instant) : Prop := firstDay ≤ t.dayNumber ∧ t.dayNumber ≤ lastDay

instance (t : Instant) : Decidable t.InRange := by unfold InRange; infer_instance

/-! ## Differences

The difference counts a leap second that one of the two lies in, where the other
lies later in its day. -/

/-- The leap second that a difference counts, by the times of day. -/
def leapSecondsBetween (later earlier : Instant) : Int :=
  if later.secondOfDay > earlier.secondOfDay then (if earlier.isLeap then 1 else 0)
  else if later.secondOfDay < earlier.secondOfDay then (if later.isLeap then -1 else 0)
  else 0

/-- The nanoseconds from one instant to another. -/
def since (later earlier : Instant) : Int :=
  (later.second - earlier.second + leapSecondsBetween later earlier) * nanosPerSecond
    + (later.nano - earlier.nano)

def nanosPerDay : Int := secondsPerDay * nanosPerSecond

/-- Whole days of a span of nanoseconds, counted toward zero. -/
def wholeDays (span : Int) : Int := span.tdiv nanosPerDay

/-- The instant a number of days later; a leap second is left for the second before it.
`none` past the last day. -/
def plusDays? (t : Instant) (days : Nat) : Option Instant :=
  let moved : Instant :=
    if days = 0 then t
    else ⟨t.second + days * secondsPerDay, if t.isLeap then t.nano - nanosPerSecond else t.nano⟩
  if moved.dayNumber ≤ lastDay then some moved else none

end Instant

end Keyring.Time

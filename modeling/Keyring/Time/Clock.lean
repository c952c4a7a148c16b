import Keyring.Time.Instant

/-!
# The clock

What a clock shows, each time it is read. It may be set back in between.
-/

namespace Keyring.Time

/-- A time that a clock shows; no clock shows that it is in a leap second. -/
structure Reading where
  instant : Instant
  regular : instant.nano < Instant.nanosPerSecond
deriving DecidableEq, Repr

/-- What a clock shows at a time. A leap second is gone when it is shown. -/
def Reading.of (t : Instant) : Reading where
  instant := ⟨t.second + t.nano / Instant.nanosPerSecond, t.nano % Instant.nanosPerSecond⟩
  regular := Nat.mod_lt _ (by decide)

/-- The readings of a clock, in the order in which they are taken. -/
abbrev Clock := Nat → Reading

namespace Clock

def now (clock : Clock) : Instant := (clock 0).instant

def later (clock : Clock) : Clock := fun n => clock (n + 1)

def still (t : Reading) : Clock := fun _ => t

end Clock

end Keyring.Time

import Keyring.Proofs.Time.Rfc3339

/-!
# Spans of time

A number of days added to an instant is the span between the two, and the whole days of
a span between instants that are kept are few.
-/

namespace Keyring.Time.Instant

variable {t later earlier : Instant} {days : Nat}

protected theorem le_refl (t : Instant) : t ≤ t := .inr ⟨rfl, Nat.le_refl _⟩

protected theorem le_trans {a b c : Instant} (ab : a ≤ b) (bc : b ≤ c) : a ≤ c := by
  unfold LE.le instLE Instant.le at *
  dsimp only at *
  omega

theorem dayNumber_mono {a b : Instant} (le : a ≤ b) : a.dayNumber ≤ b.dayNumber := by
  have seconds : a.second ≤ b.second := by
    rcases le with before | ⟨same, -⟩
    · omega
    · omega
  exact Int.ediv_le_ediv (by decide) seconds

theorem secondOfDay_add (second days : Int) (nano nano' : Nat) :
    (Instant.mk (second + days * secondsPerDay) nano).secondOfDay = (Instant.mk second nano').secondOfDay := by
  unfold secondOfDay
  rw [Int.add_mul_emod_self_right]

/-- Days later it is the same time of day. A leap second is not there again. -/
theorem eq_of_plusDays? (moved : t.plusDays? days = some later) (some_ : 0 < days) :
    later = ⟨t.second + days * secondsPerDay, if t.isLeap then t.nano - nanosPerSecond else t.nano⟩ := by
  unfold plusDays? at moved
  rw [if_neg (Nat.ne_of_gt some_), Option.ite_none_right_eq_some] at moved
  exact (Option.some.inj moved.2).symm

/-- Days later it is later by as many days, and from a leap second by a second less. -/
theorem since_plusDays (moved : t.plusDays? days = some later) (some_ : 0 < days) :
    later.since t = days * nanosPerDay - if t.isLeap then (nanosPerSecond : Int) else 0 := by
  obtain rfl := eq_of_plusDays? moved some_
  have sameTime : ∀ nano, (Instant.mk (t.second + days * secondsPerDay) nano).secondOfDay = t.secondOfDay :=
    fun nano => secondOfDay_add t.second days nano t.nano
  unfold since leapSecondsBetween nanosPerDay
  rw [sameTime, if_neg (Nat.lt_irrefl _), if_neg (Nat.lt_irrefl _)]
  dsimp only
  by_cases leap : t.isLeap = true
  · have enough : nanosPerSecond ≤ t.nano := by simpa [isLeap] using leap
    rw [if_pos leap, if_pos leap]
    unfold secondsPerDay nanosPerSecond at *
    omega
  · rw [if_neg leap, if_neg leap]
    unfold secondsPerDay nanosPerSecond
    omega

theorem nanosPerDay_pos : 0 < nanosPerDay := by decide

theorem wholeDays_mono {span span' : Int} (le : span ≤ span') : wholeDays span ≤ wholeDays span' :=
  Int.tdiv_le_tdiv nanosPerDay_pos le

theorem wholeDays_mul (days : Int) : wholeDays (days * nanosPerDay) = days :=
  Int.mul_tdiv_cancel days (ne_of_gt nanosPerDay_pos)

/-- More whole days than a number are a day more at least. -/
theorem lt_wholeDays_iff (n : Nat) (span : Int) : (n : Int) < wholeDays span ↔ (n + 1) * nanosPerDay ≤ span := by
  rw [wholeDays, Int.lt_iff_add_one_le]
  rcases Int.le_total 0 span with forward | backward
  · rw [Int.tdiv_eq_ediv_of_nonneg forward]
    exact Int.le_ediv_iff_mul_le nanosPerDay_pos
  · -- a span into the past has no whole day, and cannot make up for one more
    have whole : 0 ≤ (-span).tdiv nanosPerDay := Int.tdiv_nonneg (by omega) nanosPerDay_pos.le
    rw [Int.neg_tdiv] at whole
    have some : 0 < (n + 1) * nanosPerDay := Int.mul_pos (by omega) nanosPerDay_pos
    constructor
    · intro more
      omega
    · intro more
      omega

theorem wholeDays_nonneg {span : Int} (short : -nanosPerDay < span) : 0 ≤ wholeDays span := by
  rcases Int.le_total 0 span with forward | backward
  · exact Int.tdiv_nonneg forward nanosPerDay_pos.le
  · have none_ : (-span).tdiv nanosPerDay = 0 := Int.tdiv_eq_zero_of_lt (by omega) (by omega)
    rw [Int.neg_tdiv] at none_
    unfold wholeDays
    omega

/-- There are no more days than these between the first that is kept and the last. -/
def daysKept : Int := 191491530

/-- No two instants that are kept are further apart. -/
theorem since_le (later_ : later.IsKept) (earlier_ : earlier.IsKept) :
    later.since earlier ≤ daysKept * nanosPerDay := by
  have first : firstDay = -96465292 := by decide
  have last : lastDay = 95026236 := by decide
  have high : later.second < 95026237 * 86400 := by
    have inRange := later_.inRange.2
    rw [last, dayNumber, secondsPerDay] at inRange
    omega
  have low : -96465292 * 86400 ≤ earlier.second := by
    have inRange := earlier_.inRange.1
    rw [first, dayNumber, secondsPerDay] at inRange
    omega
  have nano : later.nano < 2000000000 := by
    have := later_.nano
    unfold nanosPerSecond at this
    omega
  have leap : leapSecondsBetween later earlier ≤ 1 := by
    unfold leapSecondsBetween
    split
    · split <;> decide
    · split
      · split <;> decide
      · decide
  unfold since daysKept nanosPerDay nanosPerSecond secondsPerDay
  omega

theorem leapSecondsBetween_swap (later earlier : Instant) :
    leapSecondsBetween earlier later = -leapSecondsBetween later earlier := by
  unfold leapSecondsBetween
  rcases Nat.lt_trichotomy later.secondOfDay earlier.secondOfDay with before | same | after
  · rw [if_pos before, if_neg (Nat.lt_asymm before), if_pos before]
    split <;> rfl
  · rw [same]
    simp
  · rw [if_neg (Nat.lt_asymm after), if_pos after, if_pos after]
    split <;> rfl

theorem since_swap (later earlier : Instant) : earlier.since later = -later.since earlier := by
  unfold since nanosPerSecond
  rw [leapSecondsBetween_swap later earlier]
  omega

theorem wholeDays_since_lt (later_ : later.IsKept) (earlier_ : earlier.IsKept) :
    wholeDays (later.since earlier) < Nat.pow 2 32 :=
  calc wholeDays (later.since earlier)
      ≤ wholeDays (daysKept * nanosPerDay) := wholeDays_mono (since_le later_ earlier_)
    _ = daysKept := wholeDays_mul _
    _ < Nat.pow 2 32 := by decide

/-- The longest span that is kept, of as many milliseconds as 63 bits count. -/
def longestSpan : Int := 9223372036854775807 * 1000000

def kept? (span : Int) : Option Int :=
  if -longestSpan ≤ span ∧ span ≤ longestSpan then some span else none

/-- Every span between instants that are kept is kept. -/
theorem kept?_since (later_ : later.IsKept) (earlier_ : earlier.IsKept) :
    kept? (later.since earlier) = some (later.since earlier) := by
  have high := since_le later_ earlier_
  have low := since_le earlier_ later_
  rw [since_swap later earlier] at low
  have fits : daysKept * nanosPerDay ≤ longestSpan := by decide
  unfold kept?
  rw [if_pos (by omega)]

/-- As many days as 32 bits count are a span that is kept. -/
theorem kept?_days (few : days < Nat.pow 2 32) : kept? (days * nanosPerDay) = some (days * nanosPerDay) := by
  have low : 0 ≤ (days : Int) * nanosPerDay := Int.mul_nonneg (by omega) (Int.le_of_lt nanosPerDay_pos)
  have high : (days : Int) * nanosPerDay ≤ Nat.pow 2 32 * nanosPerDay :=
    Int.mul_le_mul_of_nonneg_right (by omega) (Int.le_of_lt nanosPerDay_pos)
  have fits : (Nat.pow 2 32 : Int) * nanosPerDay ≤ longestSpan := by decide
  have nonneg : 0 ≤ longestSpan := by decide
  unfold kept?
  rw [if_pos (by omega)]

theorem plusDays?_eq_none_iff : t.plusDays? days = none ↔ lastDay < t.dayNumber + days := by
  have moved : ∀ nano, (Instant.mk (t.second + days * secondsPerDay) nano).dayNumber = t.dayNumber + days := by
    intro nano
    unfold dayNumber
    exact Int.add_mul_ediv_right _ _ (by decide)
  unfold plusDays?
  by_cases none_ : days = 0
  · simp [none_]
  · simp [none_, moved]

end Keyring.Time.Instant

import Keyring.Proofs.Time.Span

/-!
# Passing time

Spans of time follow the order of instants, with one exception. A leap second at the end of a day
is counted as if the next day had begun already, so the first instants of that day seem to lie
before it (`Outruns`). Instants in the order in which spans count them (`settled`) decide how many
days a span has at least (`days_le_since_iff`).
-/

namespace Keyring.Time.Instant

variable {t a b later earlier last : Instant} {days : Int}

theorem le_iff : a ≤ b ↔ a.second < b.second ∨ a.second = b.second ∧ a.nano ≤ b.nano := Iff.rfl

theorem le_of_not_le (not : ¬ a ≤ b) : b ≤ a := by
  rw [le_iff] at *
  omega

theorem lt_iff {a b : Instant} : a < b ↔ ¬ b ≤ a := by
  rw [le_iff]
  show a.second < b.second ∨ a.second = b.second ∧ a.nano < b.nano ↔ _
  omega

/-- A leap second is the last one of its minute. -/
def IsRegular (t : Instant) : Prop :=
  t.nano < nanosPerSecond ∨ t.nano < 2 * nanosPerSecond ∧ t.secondOfDay % 60 = 59

theorem IsKept.regular (kept : t.IsKept) : t.IsRegular := kept.nano

theorem secondOfDay_eq (t : Instant) : (t.secondOfDay : Int) = t.second % 86400 := by
  unfold secondOfDay secondsPerDay
  omega

/-- The instant as which a span counts it: a leap second at the end of a day is the first second
of the next one. -/
def settled (t : Instant) : Instant :=
  if t.isLeap ∧ t.secondOfDay = 86399 then ⟨t.second + 1, t.nano - nanosPerSecond⟩ else t

/-- A span is not negative just where its ends are in their order as it counts them. -/
theorem nonneg_since_iff (regular : a.IsRegular) (regular' : b.IsRegular) :
    0 ≤ b.since a ↔ a.settled ≤ b.settled := by
  have timeOfDay := secondOfDay_eq a
  have timeOfDay' := secondOfDay_eq b
  unfold IsRegular nanosPerSecond at regular regular'
  rw [le_iff]
  unfold since settled leapSecondsBetween isLeap nanosPerSecond
  simp only [decide_eq_true_eq]
  -- both times of day compared, with either end in a leap second or not
  split_ifs <;> (try dsimp only) <;> omega

theorem le_settled (t : Instant) : t ≤ t.settled := by
  unfold settled
  split
  · rw [le_iff]
    dsimp only
    omega
  · exact t.le_refl

theorem settled_of_not_leap (notLeap : t.isLeap = false) : t.settled = t := by
  unfold settled
  rw [if_neg (by simp [notLeap])]

/-- The same time of day so many days later. -/
def shifted (t : Instant) (days : Int) : Instant := ⟨t.second + days * secondsPerDay, t.nano⟩

theorem secondOfDay_shifted (t : Instant) (days : Int) : (t.shifted days).secondOfDay = t.secondOfDay :=
  secondOfDay_add t.second days t.nano t.nano

theorem IsRegular.shifted (regular : t.IsRegular) (days : Int) : (t.shifted days).IsRegular := by
  unfold IsRegular
  rw [secondOfDay_shifted]
  exact regular

theorem settled_shifted (t : Instant) (days : Int) : (t.shifted days).settled = t.settled.shifted days := by
  unfold settled
  rw [secondOfDay_shifted]
  show (if t.isLeap = true ∧ t.secondOfDay = 86399 then _ else _) = _
  split
  · simp only [Instant.shifted, Instant.mk.injEq, and_true]
    omega
  · rfl

theorem shifted_le (le : a ≤ b) (days : Int) : a.shifted days ≤ b.shifted days := by
  rw [le_iff] at *
  unfold shifted
  dsimp only
  omega

/-- A span is by so many days shorter when it starts so many days later. -/
theorem since_shifted (later earlier : Instant) (days : Int) :
    later.since (earlier.shifted days) = later.since earlier - days * nanosPerDay := by
  have sameLeap : leapSecondsBetween later (earlier.shifted days) = leapSecondsBetween later earlier := by
    unfold leapSecondsBetween
    rw [secondOfDay_shifted]
    rfl
  unfold since
  rw [sameLeap]
  unfold shifted nanosPerDay secondsPerDay nanosPerSecond
  dsimp only
  omega

theorem shifted_since (later earlier : Instant) (days : Int) :
    (later.shifted days).since earlier = later.since earlier + days * nanosPerDay := by
  rw [since_swap, since_shifted, since_swap later earlier]
  omega

/-- A span has so many days at least just where it still is one when it starts so many days later. -/
theorem days_le_since_iff (regular : a.IsRegular) (regular' : b.IsRegular) :
    days * nanosPerDay ≤ b.since a ↔ a.settled.shifted days ≤ b.settled := by
  rw [← settled_shifted, ← nonneg_since_iff (regular.shifted days) regular', since_shifted]
  omega

theorem days_le_since_of_earlier (regular : a.IsRegular) (regular' : b.IsRegular) (last_ : last.IsRegular)
    (forward : a.settled ≤ b.settled) (left : days * nanosPerDay ≤ last.since b) :
    days * nanosPerDay ≤ last.since a := by
  rw [days_le_since_iff regular' last_] at left
  rw [days_le_since_iff regular last_]
  exact Instant.le_trans (shifted_le forward days) left

theorem days_le_since_of_later (regular : a.IsRegular) (regular' : b.IsRegular) (first : t.IsRegular)
    (forward : a.settled ≤ b.settled) (gone : days * nanosPerDay ≤ a.since t) :
    days * nanosPerDay ≤ b.since t := by
  rw [days_le_since_iff first regular] at gone
  rw [days_le_since_iff first regular']
  exact Instant.le_trans gone forward

/-- An instant in the leap second at the end of a day, and a later one that is not as far into the
first second of the next day. -/
def Outruns (earlier later : Instant) : Prop :=
  earlier.secondOfDay = 86399 ∧ later.second = earlier.second + 1 ∧ later.nano + nanosPerSecond < earlier.nano

instance (earlier later : Instant) : Decidable (earlier.Outruns later) :=
  inferInstanceAs (Decidable (_ ∧ _ ∧ _))

theorem Outruns.before (outruns : earlier.Outruns later) : ¬ later ≤ earlier := by
  have next := outruns.2.1
  rw [le_iff]
  omega

/-- Only then is the span from an instant to a later one negative. -/
theorem since_neg_iff (regular : earlier.IsRegular) (regular' : later.IsRegular) (le : earlier ≤ later) :
    later.since earlier < 0 ↔ earlier.Outruns later := by
  have timeOfDay := secondOfDay_eq earlier
  have timeOfDay' := secondOfDay_eq later
  rw [← Int.not_le, nonneg_since_iff regular regular']
  unfold IsRegular nanosPerSecond at regular regular'
  rw [le_iff] at le ⊢
  unfold settled Outruns isLeap nanosPerSecond
  simp only [decide_eq_true_eq]
  split_ifs <;> (try dsimp only) <;> omega

/-- The first second of its day, as far as the instant is into its own second. -/
def dayBegun (t : Instant) : Instant := ⟨t.second - t.secondOfDay, t.nano % nanosPerSecond⟩

theorem regular_dayBegun (t : Instant) : t.dayBegun.IsRegular := .inl (Nat.mod_lt _ (by decide))

theorem dayBegun_le (some_ : 0 < t.secondOfDay) : t.dayBegun ≤ t := by
  rw [le_iff]
  unfold dayBegun
  dsimp only
  omega

/-- Such a leap second is counted as a day after its day has begun. -/
theorem Outruns.settled_eq (outruns : earlier.Outruns later) (regular : earlier.IsRegular) :
    earlier.settled = earlier.dayBegun.settled.shifted 1 := by
  obtain ⟨endOfDay, -, leap⟩ := outruns
  unfold IsRegular at regular
  have notLeap : earlier.dayBegun.isLeap = false :=
    decide_eq_false (Nat.not_le.2 (Nat.mod_lt earlier.nano (by decide)))
  have isLeap : earlier.isLeap = true := decide_eq_true (by omega)
  rw [settled_of_not_leap notLeap]
  unfold settled dayBegun shifted secondsPerDay nanosPerSecond at *
  rw [if_pos ⟨isLeap, endOfDay⟩, endOfDay]
  simp only [Instant.mk.injEq]
  omega

theorem settled_le_iff (regular : earlier.IsRegular) (regular' : later.IsRegular) (le : earlier ≤ later) :
    earlier.settled ≤ later.settled ↔ ¬ earlier.Outruns later := by
  rw [← nonneg_since_iff regular regular', ← since_neg_iff regular regular' le, Int.not_lt]

theorem neg_second_lt_since (regular : earlier.IsRegular) (regular' : later.IsRegular) (le : earlier ≤ later) :
    -(nanosPerSecond : Int) < later.since earlier := by
  have timeOfDay := secondOfDay_eq earlier
  have timeOfDay' := secondOfDay_eq later
  unfold IsRegular nanosPerSecond at regular regular'
  rw [le_iff] at le
  unfold since leapSecondsBetween isLeap nanosPerSecond
  simp only [decide_eq_true_eq]
  split_ifs <;> omega

theorem wholeDays_since_nonneg (regular : earlier.IsRegular) (regular' : later.IsRegular) (le : earlier ≤ later) :
    0 ≤ wholeDays (later.since earlier) := by
  have back := neg_second_lt_since regular regular' le
  have long : (nanosPerSecond : Int) ≤ nanosPerDay := by decide
  exact wholeDays_nonneg (by omega)

variable {now : Instant} {ttl : Nat}

/-- The same instant outside of a leap second, so many days after which a lifetime ends. -/
def unleaped (t : Instant) : Instant := ⟨t.second, if t.isLeap then t.nano - nanosPerSecond else t.nano⟩

theorem unleaped_le (t : Instant) : t.unleaped ≤ t := by
  refine .inr ⟨rfl, ?_⟩
  unfold unleaped
  dsimp only
  split
  · exact Nat.sub_le _ _
  · exact Nat.le_refl _

theorem IsRegular.unleaped_lt (regular : t.IsRegular) : t.unleaped.nano < nanosPerSecond := by
  unfold IsRegular at regular
  unfold unleaped isLeap
  simp only [decide_eq_true_eq]
  split
  · omega
  · omega

/-- Whatever lasts for days has less than these left after its first instant. -/
theorem since_lt_of_lt (regular : now.IsRegular) (regular' : t.IsRegular) (after : now < t) (some_ : 0 < ttl)
    (moved : now.plusDays? ttl = some last) : last.since t < ttl * nanosPerDay := by
  obtain rfl : last = now.unleaped.shifted ttl := eq_of_plusDays? moved some_
  have notLeap : now.unleaped.isLeap = false := decide_eq_false (Nat.not_le.2 regular.unleaped_lt)
  have before : ¬ 0 ≤ now.unleaped.since t := by
    rw [nonneg_since_iff regular' (.inl regular.unleaped_lt), settled_of_not_leap notLeap]
    intro back
    exact lt_iff.1 after (Instant.le_trans t.le_settled (Instant.le_trans back now.unleaped_le))
  rw [shifted_since]
  omega

/-- The beginning of the next second. -/
def nextSecond (t : Instant) : Instant := ⟨t.second + 1, 0⟩

theorem lt_nextSecond (t : Instant) : t < t.nextSecond := by
  refine .inl ?_
  unfold nextSecond
  dsimp only
  omega

/-- It is kept where days can be counted from the instant before it. -/
theorem IsKept.nextSecond (kept : now.IsKept) (some_ : 0 < ttl) (moved : now.plusDays? ttl = some last) :
    now.nextSecond.IsKept := by
  have low := kept.inRange.1
  have room : ¬ lastDay < now.dayNumber + ttl := by
    rw [← plusDays?_eq_none_iff, moved]
    nofun
  refine ⟨?_, .inl (show 0 < nanosPerSecond by decide)⟩
  unfold InRange dayNumber Instant.nextSecond secondsPerDay at *
  dsimp only
  omega

/-- Whatever lasts for days has less than a second less left then. -/
theorem le_since_nextSecond (regular : now.IsRegular) (some_ : 0 < ttl) (moved : now.plusDays? ttl = some last) :
    ttl * nanosPerDay - nanosPerSecond ≤ last.since now.nextSecond := by
  obtain rfl : last = now.unleaped.shifted ttl := eq_of_plusDays? moved some_
  have notLeap : now.unleaped.isLeap = false := decide_eq_false (Nat.not_le.2 regular.unleaped_lt)
  have notLeap' : now.nextSecond.isLeap = false := rfl
  rw [shifted_since]
  unfold since leapSecondsBetween
  rw [notLeap, notLeap']
  simp only [Bool.false_eq_true, if_false, ite_self]
  unfold nextSecond unleaped nanosPerSecond
  dsimp only
  omega

theorem nextSecond_lt (some_ : 0 < ttl) (moved : now.plusDays? ttl = some last) : now.nextSecond < last := by
  obtain rfl := eq_of_plusDays? moved some_
  refine .inl ?_
  unfold nextSecond secondsPerDay
  dsimp only
  omega

end Keyring.Time.Instant

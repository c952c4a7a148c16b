import Keyring.Expiry
import Keyring.Proofs.Time.Passing
import Keyring.Time.Clock

/-!
# Time that is left

As time goes by, a key that is valid is about to expire and has expired then, and the days that it has
left get fewer (`TurnsInto`). The state by its date follows that order wherever spans follow the order
of instants; in a leap second at the end of a day they do not, and there a key can be about to expire,
or have expired a day ago, only to be valid or a day younger in the second after (`forward_iff`). No
clock shows such a second (`forward_of_readings`).
-/

namespace Keyring.Expiry

open Time Instant

variable {now later last : Instant} {expiresAt : Option Instant} {warnDays : Nat}

/-- What a state may be later on. -/
inductive TurnsInto : Expiry → Expiry → Prop where
  | never : TurnsInto never never
  | valid {left left' : Int} (fewer : left' ≤ left) : TurnsInto (valid left) (valid left')
  | warns {left left' : Int} (fewer : left' ≤ left) : TurnsInto (valid left) (expiring left')
  | expiring {left left' : Int} (fewer : left' ≤ left) : TurnsInto (expiring left) (expiring left')
  | ends {left ago : Int} : TurnsInto (valid left) (expired ago)
  | runsOut {left ago : Int} : TurnsInto (expiring left) (expired ago)
  | expired {ago ago' : Int} (more : ago ≤ ago') : TurnsInto (expired ago) (expired ago')

/-- A state whose days fit it, given the days of warning. -/
def Fits (warnDays : Nat) : Expiry → Prop
  | never => True
  | valid left => warnDays ≤ left
  | expiring left => 0 ≤ left ∧ left < warnDays
  | expired ago => 0 ≤ ago

instance : Decidable (Fits warnDays e) :=
  match e with
  | never => inferInstanceAs (Decidable True)
  | valid _ => inferInstanceAs (Decidable (_ ≤ _))
  | expiring _ => inferInstanceAs (Decidable (_ ∧ _))
  | expired _ => inferInstanceAs (Decidable (_ ≤ _))

theorem at_of_past (past : last ≤ now) (warnDays : Nat) :
    at_ (some last) now warnDays = .expired (wholeDays (now.since last)) :=
  if_pos past

theorem at_of_near (ahead : ¬ last ≤ now) (near : last.since now < warnDays * nanosPerDay) :
    at_ (some last) now warnDays = .expiring (wholeDays (last.since now)) :=
  (if_neg ahead).trans (if_pos near)

theorem at_of_far (ahead : ¬ last ≤ now) (far : ¬ last.since now < warnDays * nanosPerDay) :
    at_ (some last) now warnDays = .valid (wholeDays (last.since now)) :=
  (if_neg ahead).trans (if_neg far)

/-- A key has expired just from its last instant on. -/
theorem isExpired_at_iff (expiresAt : Option Instant) (now : Instant) (warnDays : Nat) :
    (at_ expiresAt now warnDays).isExpired = true ↔ ∃ last ∈ expiresAt, last ≤ now := by
  cases expiresAt with
  | none => simp [at_, isExpired]
  | some last =>
    by_cases past : last ≤ now
    · simp [at_of_past past, isExpired, past]
    · by_cases near : last.since now < warnDays * nanosPerDay
      · simp [at_of_near past near, isExpired, past]
      · simp [at_of_far past near, isExpired, past]

theorem at_eq_never_iff (expiresAt : Option Instant) (now : Instant) (warnDays : Nat) :
    at_ expiresAt now warnDays = .never ↔ expiresAt = none := by
  cases expiresAt with
  | none => simp [at_]
  | some last =>
    by_cases past : last ≤ now
    · simp [at_of_past past]
    · by_cases near : last.since now < warnDays * nanosPerDay
      · simp [at_of_near past near]
      · simp [at_of_far past near]

/-- Days are told by the whole days that a span has at least. -/
theorem wholeDays_le_of_imp {span span' : Int} (forward : 0 ≤ wholeDays span')
    (more : ∀ days : Int, days * nanosPerDay ≤ span → days * nanosPerDay ≤ span') :
    wholeDays span ≤ wholeDays span' := by
  obtain ⟨n, is⟩ := Int.eq_ofNat_of_zero_le forward
  rw [is]
  by_contra beyond
  have longer := more _ ((lt_wholeDays_iff n span).1 (Int.not_le.1 beyond))
  have again := (lt_wholeDays_iff n span').2 longer
  omega

/-- The days of a state fit it, but for a leap second that is counted as past the last instant when there are no
days of warning. -/
theorem fits_at_iff (regular : now.IsRegular) (regular' : last.IsRegular) (warnDays : Nat) :
    (at_ (some last) now warnDays).Fits warnDays ↔ ¬ (warnDays = 0 ∧ now.Outruns last) := by
  by_cases past : last ≤ now
  · have before : ¬ now.Outruns last := fun outruns => outruns.before past
    rw [at_of_past past]
    simp only [Fits, before, and_false, not_false_iff, iff_true]
    exact wholeDays_since_nonneg regular' regular past
  have le := Instant.le_of_not_le past
  have left := wholeDays_since_nonneg regular regular' le
  have back := since_neg_iff regular regular' le
  cases warnDays with
  | zero =>
    rw [and_iff_right rfl, ← back]
    by_cases near : last.since now < (0 : Nat) * nanosPerDay
    · rw [at_of_near past near]
      simp only [Fits]
      omega
    · rw [at_of_far past near]
      simp only [Fits]
      omega
  | succ n =>
    have whole := lt_wholeDays_iff n (last.since now)
    have warned : ¬ (n + 1 = 0 ∧ now.Outruns last) := fun none_ => Nat.succ_ne_zero n none_.1
    rw [iff_true_right warned]
    by_cases near : last.since now < (n + 1 : Nat) * nanosPerDay
    · rw [at_of_near past near]
      simp only [Fits]
      push_cast at near ⊢
      omega
    · rw [at_of_far past near]
      simp only [Fits]
      push_cast at near ⊢
      omega

/-- Where spans follow their order, a state later on is one that it turns into. -/
theorem turnsInto_of_settled_le (regular : now.IsRegular) (regular' : later.IsRegular)
    (dates : ∀ last ∈ expiresAt, last.IsRegular) (le : now ≤ later) (forward : now.settled ≤ later.settled)
    (warnDays : Nat) : (at_ expiresAt now warnDays).TurnsInto (at_ expiresAt later warnDays) := by
  cases expiresAt with
  | none => exact .never
  | some last =>
    have date := dates last rfl
    by_cases past : last ≤ now
    · rw [at_of_past past, at_of_past (Instant.le_trans past le)]
      exact .expired (wholeDays_le_of_imp (wholeDays_since_nonneg date regular' (Instant.le_trans past le))
        fun _ => days_le_since_of_later regular regular' date forward)
    have left := wholeDays_since_nonneg regular date (Instant.le_of_not_le past)
    by_cases past' : last ≤ later
    · rw [at_of_past past']
      by_cases near : last.since now < warnDays * nanosPerDay
      · rw [at_of_near past near]
        exact .runsOut
      · rw [at_of_far past near]
        exact .ends
    have fewer : wholeDays (last.since later) ≤ wholeDays (last.since now) :=
      wholeDays_le_of_imp left fun _ => days_le_since_of_earlier regular regular' date forward
    by_cases near : last.since now < warnDays * nanosPerDay
    · have near' : last.since later < warnDays * nanosPerDay := by
        by_contra far
        have again := days_le_since_of_earlier regular regular' date forward (Int.not_lt.1 far)
        exact Int.not_lt.2 again near
      rw [at_of_near past near, at_of_near past' near']
      exact .expiring fewer
    · rw [at_of_far past near]
      by_cases near' : last.since later < warnDays * nanosPerDay
      · rw [at_of_near past' near']
        exact .warns fewer
      · rw [at_of_far past' near']
        exact .valid fewer

/-- In a leap second at the end of a day, what has expired a day ago has not in the second after. -/
theorem not_turnsInto_of_outruns (regular : now.IsRegular) (regular' : later.IsRegular) (le : now ≤ later)
    (outruns : now.Outruns later) (warnDays : Nat) :
    ¬ (at_ (some now.dayBegun) now warnDays).TurnsInto (at_ (some now.dayBegun) later warnDays) := by
  have past := dayBegun_le (t := now) (by rw [outruns.1]; decide)
  have gone : (0 : Nat) < wholeDays (now.since now.dayBegun) := by
    rw [lt_wholeDays_iff, Int.natCast_zero, Int.zero_add,
      days_le_since_iff (regular_dayBegun now) regular, outruns.settled_eq regular]
    exact Instant.le_refl _
  have notYet : ¬ (0 : Nat) < wholeDays (later.since now.dayBegun) := by
    rw [lt_wholeDays_iff, Int.natCast_zero, Int.zero_add,
      days_le_since_iff (regular_dayBegun now) regular', ← outruns.settled_eq regular,
      settled_le_iff regular regular' le, not_not]
    exact outruns
  rw [at_of_past past, at_of_past (Instant.le_trans past le)]
  rintro ⟨more⟩
  omega

/-- The state by a date only moves forward from one instant to a later one, with fewer days left and more days ago,
unless the first is in the leap second at the end of a day and the other not as far into the second after. The days
that a state has fit it unless there are no days of warning and the key is to expire in the second after such a leap
second. -/
theorem forward_iff (regular : now.IsRegular) (regular' : later.IsRegular) (le : now ≤ later) :
    ((∀ (expiresAt : Option Instant) (warnDays : Nat), (∀ last ∈ expiresAt, last.IsRegular) →
        (at_ expiresAt now warnDays).TurnsInto (at_ expiresAt later warnDays)) ↔ ¬ now.Outruns later) ∧
    ∀ (expiresAt : Option Instant) (warnDays : Nat), (∀ last ∈ expiresAt, last.IsRegular) →
      ((at_ expiresAt now warnDays).Fits warnDays ↔ ¬ (warnDays = 0 ∧ ∃ last ∈ expiresAt, now.Outruns last)) := by
  refine ⟨⟨fun forward outruns => ?_, fun settles expiresAt warnDays dates => ?_⟩, fun expiresAt warnDays dates => ?_⟩
  · exact not_turnsInto_of_outruns regular regular' le outruns 0
      (forward _ 0 fun last is => Option.some.inj is ▸ now.regular_dayBegun)
  · exact turnsInto_of_settled_le regular regular' dates le ((settled_le_iff regular regular' le).2 settles) warnDays
  · cases expiresAt with
    | none => simp [at_, Fits]
    | some last =>
      rw [fits_at_iff regular (dates last rfl)]
      simp

/-- Half a second into the leap second that ended 2016 a key with a last day of warning is about to expire, and half a
second later it is valid for a day. -/
example : at_ (some ⟨1483315200, 0⟩) ⟨1483228799, 1500000000⟩ 1 = .expiring 0 ∧
    at_ (some ⟨1483315200, 0⟩) ⟨1483228800, 0⟩ 1 = .valid 1 := by decide

/-- From one reading of a clock to a later one the state by a date only moves forward, with fewer days left and more
days ago, and its days fit it. The key has expired just from its last instant on, and only one without a last instant
never expires. -/
theorem forward_of_readings (now later : Time.Reading) (le : now.instant ≤ later.instant) (expiresAt : Option Instant)
    (dates : ∀ last ∈ expiresAt, last.IsRegular) (warnDays : Nat) :
    (at_ expiresAt now.instant warnDays).TurnsInto (at_ expiresAt later.instant warnDays) ∧
    (at_ expiresAt now.instant warnDays).Fits warnDays ∧
    ((at_ expiresAt now.instant warnDays).isExpired = true ↔ ∃ last ∈ expiresAt, last ≤ now.instant) ∧
    (at_ expiresAt now.instant warnDays = .never ↔ expiresAt = none) := by
  -- only an instant in a leap second is counted past a later one
  have ordered (t : Instant) : ¬ now.instant.Outruns t := by
    rintro ⟨-, -, leap⟩
    have whole := now.regular
    omega
  obtain ⟨forward, fits⟩ := forward_iff (.inl now.regular) (.inl later.regular) le
  refine ⟨forward.2 (ordered _) expiresAt warnDays dates, ?_, isExpired_at_iff .., at_eq_never_iff ..⟩
  exact (fits expiresAt warnDays dates).2 fun ⟨_, last, _, outruns⟩ => ordered last outruns

/-- On New Year's Day of 2017 a key that has a day left is about to expire, and a day later it has expired. -/
theorem forward_of_newYear :
    let now : Time.Reading := ⟨⟨1483228800, 0⟩, by decide⟩
    let later : Time.Reading := ⟨⟨1483315200, 0⟩, by decide⟩
    let expiresAt : Option Instant := some ⟨1483315200, 0⟩
    now.instant ≤ later.instant ∧ (∀ last ∈ expiresAt, last.IsRegular) ∧
      (at_ expiresAt now.instant 2).TurnsInto (at_ expiresAt later.instant 2) ∧
      at_ expiresAt now.instant 2 = .expiring 1 ∧ at_ expiresAt later.instant 2 = .expired 0 := by
  intro now later expiresAt
  have le : now.instant ≤ later.instant := .inl (by decide)
  have dates : ∀ last ∈ expiresAt, last.IsRegular := fun last is => Option.some.inj is ▸ .inl (by decide)
  exact ⟨le, dates, (forward_of_readings now later le expiresAt dates 2).1, by decide, by decide⟩

end Keyring.Expiry

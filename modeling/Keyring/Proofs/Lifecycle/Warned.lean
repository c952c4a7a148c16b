import Keyring.Proofs.Expiry
import Keyring.Proofs.Lifecycle.Lifetimes
import Keyring.Proofs.Time.Passing

/-!
# Lifetimes that are warned of

The settings warn of a default lifetime that is no longer than the days in which an audit warns
of a key (`ttl_warned_iff`). A key that is made for so long is reported from its first instant on,
and a key that is made for longer, or for ever, is not yet reported a second later. So the
settings warn just where the audits will, whatever is done in between (`warned_iff_reported`).
-/

namespace Keyring

open Inventory Lifecycle Time Instant

variable {now t last : Instant} {days : Nat} {inv inv' : Inventory} {name : String} {k : Key} {s : Settings}

namespace Settings

/-- A warning that begins with a field and its value. -/
def Warning.isOn (w : Warning) (field : String) : Bool :=
  (field ++ "=").toList.isPrefixOf w.message.toList

theorem isOn_of_mem_ttlWarnings {w : Warning} (listed : w ∈ s.ttlWarnings) : w.isOn "default_ttl_days" = true := by
  unfold ttlWarnings at listed
  cases ttl : s.defaultTtlDays with
  | none => simp [ttl] at listed
  | some days =>
    simp only [ttl] at listed
    split_ifs at listed
    · obtain rfl := List.mem_singleton.1 listed
      rfl
    · obtain rfl := List.mem_singleton.1 listed
      simp only [Warning.isOn, String.toList_append]
      rfl
    · cases listed

theorem mem_ttlWarnings_of_isOn {w : Warning} (listed : w ∈ s.warnings) (on : w.isOn "default_ttl_days" = true) :
    w ∈ s.ttlWarnings := by
  unfold warnings at listed
  simp only [List.mem_append, List.mem_ite_nil_right, List.mem_singleton] at listed
  rcases listed with (((⟨-, rfl⟩ | ⟨-, rfl⟩) | ⟨-, rfl⟩) | listed) | ⟨-, rfl⟩
  · simp only [Warning.isOn, String.toList_append] at on
    cases on
  · cases on
  · cases on
  · exact listed
  · simp only [Warning.isOn, String.toList_append] at on
    cases on

/-- The settings warn of a lifetime of no more days than those of warning, and of no day at all. -/
theorem ttl_warned_iff (s : Settings) : (∃ w ∈ s.warnings, w.isOn "default_ttl_days" = true) ↔
    ∃ ttl, s.defaultTtlDays = some ttl ∧ ttl ≤ s.expiryWarningDays := by
  have warned : (∃ w ∈ s.warnings, w.isOn "default_ttl_days" = true) ↔ ∃ w, w ∈ s.ttlWarnings := by
    constructor
    · rintro ⟨w, listed, on⟩
      exact ⟨w, mem_ttlWarnings_of_isOn listed on⟩
    · rintro ⟨w, listed⟩
      refine ⟨w, ?_, isOn_of_mem_ttlWarnings listed⟩
      simp only [warnings, List.mem_append]
      exact .inl (.inr listed)
  rw [warned, ttlWarnings]
  cases s.defaultTtlDays with
  | none => simp
  | some ttl =>
    simp only [Option.some.injEq, exists_eq_left']
    split_ifs with none_ short
    · simp [none_]
    · simp [short]
    · simp [short]

end Settings

/-- A finding that the key of this name has expired or is about to. -/
def Audit.Report.WarnsOf (r : Report) (name : String) : Prop :=
  ∃ f ∈ r.findings, f.subject = name ∧ (f.rule = .keyExpired ∨ f.rule = .keyExpiring)

/-- A date at which a key in use is reported, given the days of warning. -/
def Expiry.IsDue (due : Option Instant) (now : Instant) (warnDays : Nat) : Prop :=
  ∃ last ∈ due, last ≤ now ∨ last.since now < warnDays * Instant.nanosPerDay

theorem Key.isDue_iff (active : k.status = .active) (now : Instant) (warnDays : Nat) :
    k.HasExpired now ∨ k.IsExpiring now warnDays ↔ Expiry.IsDue k.expiresAt now warnDays := by
  unfold HasExpired IsExpiring Expiry.IsDue
  cases k.expiresAt with
  | none => simp
  | some last =>
    by_cases past : last ≤ now
    · simp [active, past]
    · simp [active, past]

theorem Audit.mem_byRule_iff {inv : Inventory} {p : Policy} {r : Rule} {P : Key → Prop} [DecidablePred P]
    (subjects : (((report inv p now).byRule r).map (·.subject)).Perm ((inv.keys.filter P).map (·.name))) :
    (∃ f ∈ (report inv p now).findings, f.subject = name ∧ f.rule = r) ↔ ∃ k ∈ inv.keys, k.name = name ∧ P k := by
  have listed := subjects.mem_iff (a := name)
  simp only [Report.byRule, List.mem_map, List.mem_filter, decide_eq_true_eq] at listed
  constructor
  · rintro ⟨f, found, named, rule⟩
    obtain ⟨k, ⟨known, holds⟩, is⟩ := listed.1 ⟨f, ⟨found, rule⟩, named⟩
    exact ⟨k, known, is, holds⟩
  · rintro ⟨k, known, is, holds⟩
    obtain ⟨f, ⟨found, rule⟩, named⟩ := listed.2 ⟨k, ⟨known, holds⟩, is⟩
    exact ⟨f, found, named, rule⟩

/-- An audit warns of the one key of a name while it is in use just where its date is due. -/
theorem Audit.warnsOf_iff {created : Instant} {due : Option Instant} (single : inv.datesOf name = [(created, due)])
    (active : inv.activeKey name = .ok k) (p : Policy) (now : Instant) :
    (report inv p now).WarnsOf name ↔ Expiry.IsDue due now p.expiryWarningDays := by
  have dated : ∀ k' ∈ inv.keys, k'.name = name → k'.expiresAt = due := by
    intro k' known named
    have listed : (k'.createdAt, k'.expiresAt) ∈ inv.datesOf name :=
      List.mem_map_of_mem (List.mem_filter.2 ⟨known, decide_eq_true named⟩)
    rw [single] at listed
    exact congrArg Prod.snd (List.mem_singleton.1 listed)
  have found := key_eq_ok_iff.1 (activeKey_eq_ok_iff.1 active).1
  have inUse := (activeKey_eq_ok_iff.1 active).2
  have either : (report inv p now).WarnsOf name ↔ (∃ k ∈ inv.keys, k.name = name ∧ k.HasExpired now) ∨
      ∃ k ∈ inv.keys, k.name = name ∧ k.IsExpiring now p.expiryWarningDays := by
    rw [← mem_byRule_iff (subjects_keyExpired inv p now), ← mem_byRule_iff (subjects_keyExpiring inv p now)]
    simp only [Report.WarnsOf, and_or_left, exists_or]
  rw [either]
  constructor
  · rintro (⟨k', known, named, holds⟩ | ⟨k', known, named, holds⟩)
    · rw [← dated k' known named]
      exact (Key.isDue_iff holds.1 now _).1 (.inl holds)
    · rw [← dated k' known named]
      exact (Key.isDue_iff holds.1 now _).1 (.inr holds)
  · intro isDue
    have known := List.mem_of_find?_eq_some found
    have named := name_of_findKey? found
    rw [← dated k known named, ← Key.isDue_iff inUse] at isDue
    rcases isDue with holds | holds
    · exact .inl ⟨k, known, named, holds⟩
    · exact .inr ⟨k, known, named, holds⟩

/-- An inventory after requests of any kind, each in any world with the inventory that the one before left, of
which none set another expiry for the key of this name and none took it from the record. -/
inductive Inventory.DatedFrom (inv : Inventory) (name : String) : Inventory → Prop where
  | here : DatedFrom inv name inv
  | after {w : World} (vault : Path) (r : Request) : DatedFrom inv name w.inventory →
      (∀ ttlDays now, r ≠ .setExpiry name ttlDays now) → name ∈ (r.after vault w).inventory.keyNames →
      DatedFrom inv name (r.after vault w).inventory

theorem Inventory.DatedFrom.datesOf_eq {dates : Instant × Option Instant} (from_ : inv.DatedFrom name inv')
    (single : inv.datesOf name = [dates]) : inv'.datesOf name = [dates] := by
  induction from_ with
  | here => exact single
  | @after w vault r _ unset stays dated => exact (r.effect vault w).datesOf_eq dated unset stays

/-- A lifetime of no more days than those of warning is due at every later instant, and only such a one. -/
theorem Expiry.isDue_ever_after_iff {ttlDays : Option Nat} {due : Option Instant} (kept : now.IsKept)
    (goesOn : ∃ t, t.IsKept ∧ now < t) (expires : expiryFrom now ttlDays = .ok due) (warnDays : Nat) :
    (∀ t, t.IsKept → now < t → IsDue due t warnDays) ↔ ∃ ttl, ttlDays = some ttl ∧ ttl ≤ warnDays := by
  rw [expiryFrom_eq_ok_iff] at expires
  obtain ⟨rfl, rfl⟩ | ⟨days, last, rfl, moved, rfl⟩ := expires
  · obtain ⟨t, kept', after⟩ := goesOn
    refine iff_of_false (fun isDue => ?_) nofun
    obtain ⟨_, ⟨⟩, -⟩ := isDue t kept' after
  simp only [IsDue, Option.mem_def, Option.some.injEq, exists_eq_left']
  constructor
  · intro isDue
    by_contra longer
    have some_ : 0 < days := by omega
    have ahead := lt_iff.1 (nextSecond_lt some_ moved)
    have left := le_since_nextSecond kept.regular some_ moved
    rcases isDue now.nextSecond (kept.nextSecond some_ moved) now.lt_nextSecond with past | near
    · exact ahead past
    · have enough : ((warnDays + 1 : Nat) : Int) * nanosPerDay ≤ days * nanosPerDay :=
        Int.mul_le_mul_of_nonneg_right (by omega) nanosPerDay_pos.le
      have short : (nanosPerSecond : Int) ≤ nanosPerDay := by decide
      push_cast at enough
      rw [Int.add_mul, Int.one_mul] at enough
      omega
  · intro shorter t kept' after
    rcases Nat.eq_zero_or_pos days with rfl | some_
    · have atOnce : last = now := by
        unfold plusDays? at moved
        exact (Option.some.inj (Option.ite_none_right_eq_some.1 moved).2).symm
      rw [atOnce]
      exact .inl (Instant.le_of_not_le (lt_iff.1 after))
    · have left := since_lt_of_lt kept.regular kept'.regular after some_ moved
      have within : (days : Int) * nanosPerDay ≤ warnDays * nanosPerDay :=
        Int.mul_le_mul_of_nonneg_right (by omega) nanosPerDay_pos.le
      exact .inr (by omega)

theorem Lifecycle.Enters.activeKey (entered : Enters inv name k inv') : inv'.activeKey name = .ok k := by
  have found : inv'.findKey? name = some k := by
    have free := entered.free
    rw [← entered.name_eq] at free ⊢
    rw [entered.added]
    exact findKey?_append_self free
  have inUse : k.status = .active := by
    obtain ⟨_, _, _, _, _, _, _, _, _, _, rfl⟩ := entered.record
    rfl
  exact activeKey_eq_ok_iff.2 ⟨key_eq_ok_iff.2 found, inUse⟩

/-- The settings warn of the default lifetime just where an audit under them reports a key that is made for it at
every instant after now at which it is in use, whatever else is done in between. So it is, too, where what is done
is one history, in which it stays in use. -/
theorem warned_iff_reported {vault : Path} {req : NewKey} {w w' : World}
    (byDefault : req.ttlDays = s.defaultTtlDays) (kept : now.IsKept)
    (goesOn : ∃ t, t.IsKept ∧ now < t) (made : outcome (generate vault req now) w = (.ok k, w')) :
    ((∃ warning ∈ s.warnings, warning.isOn "default_ttl_days" = true) ↔
      ∀ (t : Instant) (inv' : Inventory) (files : Option Disk), t.IsKept → now < t →
        w'.inventory.DatedFrom req.name inv' → (∃ k', inv'.activeKey req.name = .ok k') →
          (Audit.report inv' (.ofSettings s files) t).WarnsOf req.name) ∧
    ∀ (history : Instant → Inventory) (files : Instant → Option Disk),
      (∀ t, t.IsKept → now < t →
        w'.inventory.DatedFrom req.name (history t) ∧ ∃ k', (history t).activeKey req.name = .ok k') →
      ((∃ warning ∈ s.warnings, warning.isOn "default_ttl_days" = true) ↔
        ∀ t, t.IsKept → now < t → (Audit.report (history t) (.ofSettings s (files t)) t).WarnsOf req.name) := by
  have makes := generate_commits vault req now w.inventory w rfl
  rw [made] at makes
  have expires := makes.expiresAt
  rw [byDefault] at expires
  have single := makes.enters.datesOf_self
  have warned := s.ttl_warned_iff.trans (Expiry.isDue_ever_after_iff kept goesOn expires s.expiryWarningDays).symm
  rw [warned]
  constructor
  · constructor
    · rintro isDue t inv' files kept' after from_ ⟨k', active⟩
      exact (Audit.warnsOf_iff (from_.datesOf_eq single) active (.ofSettings s files) t).2 (isDue t kept' after)
    · intro reported t kept' after
      have active := makes.enters.activeKey
      exact (Audit.warnsOf_iff single active (.ofSettings s none) t).1
        (reported t w'.inventory none kept' after .here ⟨k, active⟩)
  · intro history files onRecord
    refine forall_congr' fun t => forall_congr' fun kept' => forall_congr' fun after => ?_
    obtain ⟨from_, k', active⟩ := onRecord t kept' after
    exact (Audit.warnsOf_iff (from_.datesOf_eq single) active (.ofSettings s (files t)) t).symm

/-- New keys last for a fortnight, and a fortnight before they expire an audit warns. -/
def fortnightly : Settings := { Settings.initial with defaultTtlDays := some 14, expiryWarningDays := 14 }

/-- The key `work` is made for as long. -/
def fortnightKey : NewKey := ⟨"work", .ed25519, none, none, some 14, none, []⟩

/-- The settings warn of it, and where nothing is done it is reported ever after. -/
theorem warned_iff_reported_of_fortnightly : ∃ k w',
    outcome (generate "vault" fortnightKey ⟨0, 0⟩) Request.freshWorld = (.ok k, w') ∧
    (∃ warning ∈ fortnightly.warnings, warning.isOn "default_ttl_days" = true) ∧
    ∀ t : Instant, t.IsKept → ⟨0, 0⟩ < t → (∃ k', w'.inventory.activeKey "work" = .ok k') →
      (Audit.report w'.inventory (.ofSettings fortnightly none) t).WarnsOf "work" := by
  have done : (outcome (generate "vault" fortnightKey ⟨0, 0⟩) Request.freshWorld).1.isOk = true := by
    decide +kernel
  rcases run : outcome (generate "vault" fortnightKey ⟨0, 0⟩) Request.freshWorld with ⟨_ | k, w'⟩
  · rw [run] at done
    cases done
  have kept : (⟨0, 0⟩ : Instant).IsKept := ⟨by decide, by decide⟩
  have goesOn : ∃ t : Instant, t.IsKept ∧ ⟨0, 0⟩ < t := ⟨⟨1, 0⟩, ⟨by decide, by decide⟩, .inl (by decide)⟩
  have warned : ∃ warning ∈ fortnightly.warnings, warning.isOn "default_ttl_days" = true :=
    fortnightly.ttl_warned_iff.2 ⟨14, rfl, by decide⟩
  have reported := (warned_iff_reported rfl kept goesOn run).1.1 warned
  exact ⟨k, w', rfl, warned, fun t kept' after => reported t w'.inventory none kept' after .here⟩

end Keyring

import Keyring.CommandLine.Vault
import Keyring.Proofs.Audit
import Keyring.Proofs.TimeLeft

/-!
# Expiry in three views

The summary of an inventory counts the active keys that have expired and those about to,
an audit reports them, and `status` lists them. Each goes over the keys in its own way;
all three mean the same keys (`Key.HasExpired`, `Key.IsExpiring`).
-/

namespace Keyring

open Time

/-- A key in use whose last instant has come. -/
def Key.HasExpired (k : Key) (now : Instant) : Prop :=
  k.status = .active ∧ ∃ last ∈ k.expiresAt, last ≤ now

/-- A key in use whose last instant comes in less than so many days. -/
def Key.IsExpiring (k : Key) (now : Instant) (warnDays : Nat) : Prop :=
  k.status = .active ∧ ∃ last ∈ k.expiresAt, ¬ last ≤ now ∧ last.since now < warnDays * Instant.nanosPerDay

section Keys

variable {k : Key} {now : Instant} {warnDays : Nat}

instance : Decidable (k.HasExpired now) := inferInstanceAs (Decidable (_ ∧ _))

instance : Decidable (k.IsExpiring now warnDays) := inferInstanceAs (Decidable (_ ∧ _))

theorem Key.HasExpired.not_isExpiring (expired : k.HasExpired now) : ¬ k.IsExpiring now warnDays := by
  rintro ⟨-, last', is', ahead, -⟩
  obtain ⟨-, last, is, past⟩ := expired
  obtain rfl := Option.some.inj (is.symm.trans is')
  exact ahead past

/-- The state by its date says of a key in use whether it has expired. -/
theorem Key.isExpired_expiry_iff (k : Key) (now : Instant) (warnDays : Nat) :
    (k.expiry now warnDays).isExpired = true ↔ ∃ last ∈ k.expiresAt, last ≤ now :=
  Expiry.isExpired_at_iff k.expiresAt now warnDays

/-- A state in which a key is about to expire. -/
def Expiry.isExpiring : Expiry → Bool
  | expiring _ => true
  | _ => false

theorem Key.isExpiring_expiry_iff (k : Key) (now : Instant) (warnDays : Nat) :
    (k.expiry now warnDays).isExpiring = true ↔
      ∃ last ∈ k.expiresAt, ¬ last ≤ now ∧ last.since now < warnDays * Instant.nanosPerDay := by
  unfold Key.expiry
  cases k.expiresAt with
  | none => simp [Expiry.at_, Expiry.isExpiring]
  | some last =>
    by_cases past : last ≤ now
    · simp [Expiry.at_of_past past, past, Expiry.isExpiring]
    · by_cases near : last.since now < warnDays * Instant.nanosPerDay
      · simp [Expiry.at_of_near past near, past, near, Expiry.isExpiring]
      · simp [Expiry.at_of_far past near, past, near, Expiry.isExpiring]

theorem Key.isActive_iff {k : Key} : k.isActive = true ↔ k.status = .active := by
  simp [Key.isActive]

end Keys

/-- What holds of the one kind of items and what holds of the other are counted apart, if nothing is of
both kinds. -/
theorem countP_add_countP_of_apart {α : Type} {p q : α → Bool} (apart : ∀ a, p a = true → q a = false)
    (items : List α) : items.countP p + items.countP q = items.countP fun a => p a || q a := by
  induction items with
  | nil => rfl
  | cons a rest ih =>
    rw [List.countP_cons, List.countP_cons, List.countP_cons, ← ih]
    by_cases is : p a = true
    · simp only [is, apart a is, Bool.true_or, if_true, Bool.false_eq_true, if_false]
      omega
    · simp only [is, Bool.false_or, Bool.false_eq_true, if_false]
      omega

section Summary

variable (inv : Inventory) (now : Instant) (warnDays : Nat)

theorem Inventory.expiredKeys_eq : inv.expiredKeys now warnDays = inv.keys.filter (·.HasExpired now) := by
  unfold expiredKeys activeKeys
  rw [List.filter_filter]
  refine List.filter_congr fun k _ => ?_
  rw [Bool.eq_iff_iff, Bool.and_eq_true, k.isExpired_expiry_iff, Key.isActive_iff, decide_eq_true_iff]
  exact and_comm

theorem Inventory.expiringKeys_eq :
    inv.expiringKeys now warnDays = inv.keys.filter (·.IsExpiring now warnDays) := by
  show inv.activeKeys.filter (fun k => (k.expiry now warnDays).isExpiring) = _
  rw [activeKeys, List.filter_filter]
  refine List.filter_congr fun k _ => ?_
  rw [Bool.eq_iff_iff, Bool.and_eq_true, k.isExpiring_expiry_iff, Key.isActive_iff, decide_eq_true_iff]
  exact and_comm

theorem Inventory.keysActive_summary :
    (inv.summary now warnDays).keysActive = inv.keys.countP (·.status = .active) :=
  List.countP_eq_length_filter.symm

theorem Inventory.keysExpired_summary :
    (inv.summary now warnDays).keysExpired = inv.keys.countP (·.HasExpired now) := by
  rw [List.countP_eq_length_filter, ← inv.expiredKeys_eq now warnDays]
  rfl

theorem Inventory.keysExpiring_summary :
    (inv.summary now warnDays).keysExpiring = inv.keys.countP (·.IsExpiring now warnDays) := by
  rw [List.countP_eq_length_filter, ← inv.expiringKeys_eq now warnDays]
  rfl

theorem Inventory.keys_summary :
    (inv.summary now warnDays).keysActive + (inv.summary now warnDays).keysRotated +
      (inv.summary now warnDays).keysRevoked = inv.keys.length := by
  rw [inv.keysActive_summary]
  show inv.keys.countP (·.status = .active) + inv.keys.countP (·.status = .rotated) +
    inv.keys.countP (·.status = .revoked) = inv.keys.length
  rw [countP_add_countP_of_apart, countP_add_countP_of_apart, List.countP_eq_length]
  · intro k _
    cases k.status <;> rfl
  · intro k
    cases k.status <;> decide
  · intro k
    cases k.status <;> decide

theorem Inventory.keysToRenew_summary :
    (inv.summary now warnDays).keysExpired + (inv.summary now warnDays).keysExpiring =
      inv.keys.countP fun k => decide (k.HasExpired now) || decide (k.IsExpiring now warnDays) := by
  rw [inv.keysExpired_summary, inv.keysExpiring_summary, countP_add_countP_of_apart]
  intro k expired
  exact decide_eq_false (of_decide_eq_true expired).not_isExpiring

theorem Inventory.expiry_summary_le :
    (inv.summary now warnDays).keysExpired + (inv.summary now warnDays).keysExpiring ≤
      (inv.summary now warnDays).keysActive := by
  rw [inv.keysToRenew_summary, inv.keysActive_summary]
  refine List.countP_mono_left fun k _ either => ?_
  rw [Bool.or_eq_true, decide_eq_true_iff, decide_eq_true_iff] at either
  rcases either with expired | expiring
  · exact decide_eq_true expired.1
  · exact decide_eq_true expiring.1

end Summary

namespace Audit

theorem filter_rule_marks (r r' : Rule) (subject : String) (times : Nat) :
    (r'.marks subject times).filter (·.rule = r) = if r' = r then r.marks subject times else [] := by
  unfold Rule.marks
  by_cases is : r' = r
  · simp [is]
  · simp [is]

theorem filter_rule_marksOn (r : Rule) (subject : String) (times : Rule → Nat) :
    (marksOn subject times).filter (·.rule = r) = r.marks subject (times r) := by
  unfold marksOn
  rw [List.filter_flatMap]
  simp only [filter_rule_marks]
  cases r <;> simp [Rule.all]

/-- What a report has by a rule that is on keys alone. -/
theorem byRule_marks {inv : Inventory} {r : Rule} (onRecord : r ≠ .inventoryInconsistent)
    (onKeys : ∀ h, hostBreaches inv h r = 0) (p : Policy) (now : Instant) :
    (((report inv p now).byRule r).map Finding.mark).Perm (inv.keys.flatMap fun k => owed inv p now k r) := by
  have sorted := (List.mergeSort_perm (findings inv p now) Finding.precedes).map Finding.mark
  have marks := (sorted.trans (findings_marks inv p now)).filter (·.rule = r)
  rw [List.filter_map] at marks
  refine marks.trans (List.Perm.of_eq ?_)
  unfold expected
  simp only [List.filter_append, List.filter_flatMap, filter_rule_marks, filter_rule_marksOn, onKeys]
  simp [onRecord.symm, Rule.marks, owed]

/-- A rule that a key breaks once at most is reported on the keys that break it, each so often as it is on
record. -/
theorem byRule_subjects {inv : Inventory} {r : Rule} {p : Policy} {now : Instant} {P : Key → Prop}
    [DecidablePred P] (onRecord : r ≠ .inventoryInconsistent) (onKeys : ∀ h, hostBreaches inv h r = 0)
    (breaches : ∀ k, reported (keyBreaches inv p now k) r = once (P k)) :
    (((report inv p now).byRule r).map (·.subject)).Perm ((inv.keys.filter P).map (·.name)) := by
  have subjects := (byRule_marks onRecord onKeys p now).map (·.subject)
  rw [List.map_map] at subjects
  refine subjects.trans (List.Perm.of_eq ?_)
  induction inv.keys with
  | nil => rfl
  | cons k rest ih =>
    rw [List.flatMap_cons, List.map_append, ih, owed, breaches, marks_once, List.filter_cons]
    by_cases holds : P k
    · simp [holds]
    · simp [holds]

theorem subjects_keyExpired (inv : Inventory) (p : Policy) (now : Instant) :
    (((report inv p now).byRule .keyExpired).map (·.subject)).Perm
      ((inv.keys.filter (·.HasExpired now)).map (·.name)) :=
  byRule_subjects (by decide) (fun _ => rfl) fun _ => rfl

theorem subjects_keyExpiring (inv : Inventory) (p : Policy) (now : Instant) :
    (((report inv p now).byRule .keyExpiring).map (·.subject)).Perm
      ((inv.keys.filter (·.IsExpiring now p.expiryWarningDays)).map (·.name)) :=
  byRule_subjects (by decide) (fun _ => rfl) fun _ => rfl

end Audit

namespace CommandLine

theorem keysToRenew_eq (inv : Inventory) (now : Instant) (warnDays : Nat) :
    keysToRenew inv now warnDays =
      (inv.keys.filter fun k => k.HasExpired now ∨ k.IsExpiring now warnDays).map
        fun k => (k.name, k.expiry now warnDays) := by
  have shown : keysToRenew inv now warnDays = (inv.activeKeys.map fun k => (k.name, k.expiry now warnDays)).filter
      fun e => e.2.isExpired || e.2.isExpiring := by
    refine List.filter_congr fun e _ => ?_
    rcases e with ⟨name, days | days | days | days⟩ <;> rfl
  rw [shown, Inventory.activeKeys, List.filter_map, List.filter_filter]
  refine congrArg _ (List.filter_congr fun k _ => ?_)
  rw [Function.comp_apply, Bool.eq_iff_iff, Bool.and_eq_true, Bool.or_eq_true, k.isExpired_expiry_iff,
    k.isExpiring_expiry_iff, Key.isActive_iff, decide_eq_true_iff]
  exact and_comm.trans and_or_left

/-- What `status` reports as data, given the inventory and the file that it was read from. -/
def statusData (setting : Setting) (path : Path) (present : Bool) (t : Instant) (warnDays : Nat)
    (inv : Inventory) : Data :=
  .record [("vault_dir", .text setting.vault), ("inventory", .text path), ("initialized", .flag present),
    ("summary", (inv.summary t warnDays).data),
    ("expiry", .list ((keysToRenew inv t warnDays).map fun (name, e) =>
      .record [("key", .text name), ("expiry", e.data)])),
    ("problems", Data.texts inv.check)]

theorem status_eq (setting : Setting) : status setting = (do
    let settings ← loadSettings setting
    let path ← openInventory setting
    let inv ← inventory
    let present := (← disk).exists_ path
    let t ← now
    reportSorted setting (statusData setting path present t settings.expiryWarningDays inv)
      (statusLines setting path present (inv.summary t settings.expiryWarningDays)
        (keysToRenew inv t settings.expiryWarningDays) inv.check)) := rfl

/-- The list that `status` reports has the keys meant in the order of the inventory, each with its state. -/
theorem field?_statusData (setting : Setting) (path : Path) (present : Bool) (t : Instant) (warnDays : Nat)
    (inv : Inventory) :
    (statusData setting path present t warnDays inv).field? "expiry" =
      some (.list ((inv.keys.filter fun k => k.HasExpired t ∨ k.IsExpiring t warnDays).map
        fun k => .record [("key", .text k.name), ("expiry", (k.expiry t warnDays).data)])) := by
  rw [statusData, keysToRenew_eq, List.map_map]
  rfl

/-- The three views of expiry agree: the summary counts the keys that have expired and those about to, an audit
with the same warning days has as many findings by the two rules, and `status` lists just these keys in the order
of the inventory. The summary has every key in one state, and no more keys to renew than active ones. -/
theorem expiry_views_agree (setting : Setting) (path : Path) (present : Bool) (t : Instant) (p : Audit.Policy)
    (inv : Inventory) :
    let warnDays := p.expiryWarningDays
    let summary := inv.summary t warnDays
    let report := Audit.report inv p t
    (summary.keysExpired = inv.keys.countP (·.HasExpired t) ∧
      summary.keysExpired = (report.byRule .keyExpired).length) ∧
    (summary.keysExpiring = inv.keys.countP (·.IsExpiring t warnDays) ∧
      summary.keysExpiring = (report.byRule .keyExpiring).length) ∧
    (statusData setting path present t warnDays inv).field? "expiry" =
      some (.list ((inv.keys.filter fun k => k.HasExpired t ∨ k.IsExpiring t warnDays).map
        fun k => .record [("key", .text k.name), ("expiry", (k.expiry t warnDays).data)])) ∧
    summary.keysActive + summary.keysRotated + summary.keysRevoked = inv.keys.length ∧
    summary.keysExpired + summary.keysExpiring ≤ summary.keysActive := by
  intro warnDays summary report
  have expired := (Audit.subjects_keyExpired inv p t).length_eq
  have expiring := (Audit.subjects_keyExpiring inv p t).length_eq
  rw [List.length_map, List.length_map, ← List.countP_eq_length_filter] at expired expiring
  have counted := inv.keysExpired_summary t warnDays
  have counted' := inv.keysExpiring_summary t warnDays
  exact ⟨⟨counted, counted.trans expired.symm⟩, ⟨counted', counted'.trans expiring.symm⟩,
    field?_statusData setting path present t warnDays inv, inv.keys_summary t warnDays,
    inv.expiry_summary_le t warnDays⟩

end CommandLine

end Keyring

import Keyring.Inventory.Edit

/-!
# Look-ups

Which record a name leads to, and which one it leads to when a record was changed or
added. The first record of a name is the one meant, so all of this holds also where a
name is given twice.
-/

namespace Keyring.Inventory

variable {inv : Inventory} {name other : String} {k : Key}

theorem key_eq_ok_iff : inv.key name = .ok k ↔ inv.findKey? name = some k := by
  unfold key
  cases inv.findKey? name with
  | none => simp
  | some found => simp

theorem name_of_findKey? (found : inv.findKey? name = some k) : k.name = name := by
  have fits := List.find?_some found
  simpa using fits

theorem host_eq_ok_iff {label : String} {h : Host} :
    inv.host label = .ok h ↔ inv.findHost? label = some h := by
  unfold host
  cases inv.findHost? label with
  | none => simp
  | some found => simp

/-- A host that was found is on record under its alias. -/
theorem mem_of_host {label : String} {h : Host} (found : inv.host label = .ok h) :
    h ∈ inv.hosts ∧ h.label = label := by
  have first : inv.hosts.find? (·.label = label) = some h := host_eq_ok_iff.mp found
  have fits := List.find?_some first
  exact ⟨List.mem_of_find?_eq_some first, by simpa using fits⟩

theorem activeKey_eq_ok_iff :
    inv.activeKey name = .ok k ↔ inv.key name = .ok k ∧ k.status = .active := by
  unfold activeKey
  cases inv.key name with
  | error e => simp [bind, Except.bind]
  | ok found =>
    simp only [bind, Except.bind, Key.isActive, decide_eq_true_eq, pure, Except.pure, Except.ok.injEq]
    by_cases active : found.status = .active
    · simp only [active, ↓reduceIte, Except.ok.injEq]
      constructor
      · rintro rfl
        exact ⟨rfl, active⟩
      · exact fun both => both.1
    · simp only [active, ↓reduceIte]
      constructor
      · intro refused
        cases refused
      · rintro ⟨rfl, is⟩
        exact absurd is active

theorem findKey?_of_activeKey (active : inv.activeKey name = .ok k) : inv.findKey? k.name = some k := by
  have found := key_eq_ok_iff.mp (activeKey_eq_ok_iff.mp active).1
  rwa [name_of_findKey? found]

theorem hostNamesOf_eq_nil_iff :
    inv.hostNamesOf name = [] ↔ ∀ d ∈ inv.deployments, d.key ≠ name := by
  simp [hostNamesOf, deploymentsOfKey]

theorem hostsUsing_eq_nil_iff :
    inv.hostsUsing name = [] ↔ ∀ h ∈ inv.hosts, h.identity ≠ some name := by
  simp [hostsUsing]

/-- A new key is found under its name where that was free. -/
theorem findKey?_append_self (free : inv.findKey? k.name = none) :
    findKey? { inv with keys := inv.keys ++ [k] } k.name = some k := by
  have none_ : inv.keys.find? (·.name = k.name) = none := free
  simp [findKey?, List.find?_append, none_]

theorem findKey?_append_of_some {k' : Key} (found : inv.findKey? name = some k) :
    findKey? { inv with keys := inv.keys ++ [k'] } name = some k := by
  have first : inv.keys.find? (·.name = name) = some k := found
  simp [findKey?, List.find?_append, first]

section Change

variable {α : Type} {fits wanted : α → Bool} {change : α → α}

/-- What is looked for is found as before, if neither it nor what it would become is changed. -/
theorem find?_changeFirst_of_ne
    (apart : ∀ a, fits a = true → wanted a = false ∧ wanted (change a) = false) (items : List α) :
    (changeFirst fits change items).find? wanted = items.find? wanted := by
  induction items with
  | nil => rfl
  | cons a rest ih =>
    by_cases fit : fits a = true
    · obtain ⟨before, after⟩ := apart a fit
      simp [changeFirst, fit, before, after]
    · by_cases want : wanted a = true
      · simp [changeFirst, fit, want]
      · simp [changeFirst, fit, want, ih]

/-- What is changed is found as what it became, if it is still what is looked for. -/
theorem find?_changeFirst_self (still : ∀ a, fits a = true → fits (change a) = true) {items : List α} {a : α}
    (found : items.find? fits = some a) : (changeFirst fits change items).find? fits = some (change a) := by
  induction items with
  | nil => cases found
  | cons b rest ih =>
    by_cases fit : fits b = true
    · rw [List.find?_cons_of_pos fit] at found
      obtain rfl := Option.some.inj found
      simp [changeFirst, fit, still b fit]
    · rw [List.find?_cons_of_neg fit] at found
      simp [changeFirst, fit, ih found]

end Change

theorem findKey?_changeKey_of_ne {change : Key → Key} (named : ∀ k, (change k).name = k.name)
    (apart : name ≠ other) : (inv.changeKey other change).findKey? name = inv.findKey? name := by
  refine find?_changeFirst_of_ne (fun k fit => ?_) inv.keys
  have is : k.name = other := by simpa using fit
  have isNot : k.name ≠ name := fun same => apart (same.symm.trans is)
  exact ⟨by simpa using isNot, by simpa [named] using isNot⟩

theorem findKey?_changeKey_self {change : Key → Key} (named : ∀ k, (change k).name = k.name)
    (found : inv.findKey? name = some k) : (inv.changeKey name change).findKey? name = some (change k) := by
  refine find?_changeFirst_self (fun k fit => ?_) found
  simpa [named] using fit

end Keyring.Inventory

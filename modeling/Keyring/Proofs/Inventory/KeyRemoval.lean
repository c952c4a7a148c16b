import Keyring.Proofs.Inventory.Integrity
import Keyring.Proofs.Remote.Answers

/-!
# Keys removed without a trace

A key goes with every reference to its name (`Unmentioned`), and every other record stays in its
place (`Removed`). Where nothing uses the key (`Unused`), a removal that is not forced does the same.
-/

namespace Keyring

namespace Inventory

variable {inv inv' : Inventory} {name : String} {k : Key} {force : Bool}

/-- No deployment is of the key, and no host is logged in to with it. -/
structure Unused (inv : Inventory) (name : String) : Prop where
  deployments : ∀ d ∈ inv.deployments, d.key ≠ name
  identities : ∀ h ∈ inv.hosts, h.identity ≠ some name

/-- No record has the name of a key in it. -/
structure Unmentioned (inv : Inventory) (name : String) : Prop extends Unused inv name where
  names : ∀ k ∈ inv.keys, k.name ≠ name
  links : ∀ k ∈ inv.keys, k.rotatedFrom ≠ some name ∧ k.rotatedTo ≠ some name

theorem Resolves.ne_some {names : List String} {reference : Option String}
    (resolves : Resolves names reference) (missing : name ∉ names) : reference ≠ some name := by
  intro is
  apply missing
  exact resolves name is

/-- In a consistent inventory only the name of a key on record is mentioned. -/
theorem Consistent.unmentioned (sound : inv.Consistent) (missing : name ∉ inv.keyNames) :
    inv.Unmentioned name where
  deployments := by
    intro d inside same
    apply missing
    rw [← same]
    exact (sound.joined d inside).1
  identities := by
    intro h inside
    exact (sound.identities h inside).ne_some missing
  names := by
    intro k inside same
    apply missing
    rw [← same]
    exact List.mem_map_of_mem inside
  links := by
    intro k inside
    have resolve := sound.links k inside
    exact ⟨resolve.1.ne_some missing, resolve.2.ne_some missing⟩

/-- Names are distinct, so no other key has the name that was dropped. -/
theorem Consistent.unmentioned_dropKey (sound : inv.Consistent) : (inv.dropKey name).Unmentioned name := by
  apply sound.dropKey.unmentioned
  rw [keyNames_dropKey]
  exact sound.keysDistinct.not_mem_erase

theorem useOf?_eq_none_iff : inv.useOf? name = none ↔ inv.Unused name := by
  unfold useOf?
  by_cases deployed : inv.hostNamesOf name = []
  · by_cases identity : inv.hostsUsing name = []
    · simp only [deployed, identity, ne_eq, not_true_eq_false, ↓reduceIte, true_iff]
      exact ⟨hostNamesOf_eq_nil_iff.mp deployed, hostsUsing_eq_nil_iff.mp identity⟩
    · simp only [deployed, identity, ne_eq, not_true_eq_false, not_false_eq_true, ↓reduceIte, reduceCtorEq,
        false_iff]
      intro unused
      exact identity (hostsUsing_eq_nil_iff.mpr unused.identities)
  · simp only [deployed, ne_eq, not_false_eq_true, ↓reduceIte, reduceCtorEq, false_iff]
    intro unused
    exact deployed (hostNamesOf_eq_nil_iff.mpr unused.deployments)

/-- A key on record is removed where that is forced or nothing uses it, and the inventory is the same
in both cases. -/
theorem removeKey_eq_ok_iff : inv.removeKey name force = .ok (k, inv') ↔
    (force = true ∨ inv.Unused name) ∧
      ∃ old, inv.key name = .ok old ∧ k = unlinkKey name old ∧ inv' = inv.dropKey name := by
  rw [removeKey_eq, ← useOf?_eq_none_iff]
  cases inv.key name with
  | error e => simp
  | ok old =>
    cases force with
    | true => simp [eq_comm]
    | false =>
      cases inv.useOf? name with
      | none => simp [eq_comm]
      | some reason => simp

theorem exists_removeKey_iff :
    (∃ removed, inv.removeKey name force = .ok removed) ↔
      name ∈ inv.keyNames ∧ (force = true ∨ inv.Unused name) := by
  constructor
  · rintro ⟨⟨k, inv'⟩, removed⟩
    obtain ⟨may, old, known, _, _⟩ := removeKey_eq_ok_iff.mp removed
    exact ⟨mem_keyNames_of_key known, may⟩
  · rintro ⟨known, may⟩
    obtain ⟨old, found⟩ := exists_key_of_mem known
    exact ⟨_, removeKey_eq_ok_iff.mpr ⟨may, old, found, rfl, rfl⟩⟩

theorem removeKey_of_not_mem (missing : name ∉ inv.keyNames) :
    inv.removeKey name force = .error (.keyNotFound name) := by
  rw [removeKey_eq, key, findKey?_eq_none_iff.mpr missing]

/-- The key of a name was taken out. All other records are left in their order as they were, but for
their references to the name, which are cleared. -/
structure Removed (inv : Inventory) (name : String) (k : Key) (inv' : Inventory) : Prop where
  keys : ∃ front old back, inv.keys = front ++ old :: back ∧ old.name = name ∧
    k = { old with
      rotatedFrom := if old.rotatedFrom = some name then none else old.rotatedFrom
      rotatedTo := if old.rotatedTo = some name then none else old.rotatedTo } ∧
    inv'.keys = (front ++ back).map fun other =>
      { other with
        rotatedFrom := if other.rotatedFrom = some name then none else other.rotatedFrom
        rotatedTo := if other.rotatedTo = some name then none else other.rotatedTo }
  hosts : inv'.hosts = inv.hosts.map fun h =>
    { h with identity := if h.identity = some name then none else h.identity }
  deployments : inv'.deployments = inv.deployments.filter (·.key ≠ name)
  version : inv'.version = inv.version

theorem removed_of_removeKey (removal : inv.removeKey name force = .ok (k, inv')) :
    Removed inv name k inv' := by
  obtain ⟨_, old, known, rfl, rfl⟩ := removeKey_eq_ok_iff.mp removal
  obtain ⟨front, back, split, before, fits⟩ := split_of_find? (key_eq_ok_iff.mp known)
  have rest : inv.keys.eraseP (·.name = name) = front ++ back := by
    rw [split, List.eraseP_append_right _ fun b inside => by simp [before b inside]]
    congr 1
    exact List.eraseP_cons_of_pos fits
  refine ⟨⟨front, old, back, split, by simpa using fits, rfl, ?_⟩, rfl, rfl, rfl⟩
  show (inv.keys.eraseP (·.name = name)).map (unlinkKey name) = _
  rw [rest]
  rfl

/-- A key of a consistent inventory is removed without a trace. Without force it is removed exactly where
it is on record and nothing uses it, and then as it is with force. After a removal with force no record
mentions the name, and every other record is where it was, less its references to the name. -/
theorem removeKey_without_trace (clean : inv.check = []) (name : String) :
    ((∃ removed, inv.removeKey name false = .ok removed) ↔ name ∈ inv.keyNames ∧
      (∀ d ∈ inv.deployments, d.key ≠ name) ∧ ∀ h ∈ inv.hosts, h.identity ≠ some name) ∧
    (∀ removed, inv.removeKey name false = .ok removed → inv.removeKey name true = .ok removed) ∧
    ((∃ k inv', inv.removeKey name true = .ok (k, inv') ∧ Removed inv name k inv' ∧
        inv'.Unmentioned name) ∨
      inv.removeKey name true = .error (.keyNotFound name) ∧ inv.Unmentioned name) := by
  have sound : inv.Consistent := check_eq_nil_iff.mp clean
  refine ⟨?_, ?_, ?_⟩
  · rw [exists_removeKey_iff]
    constructor
    · rintro ⟨known, forced | unused⟩
      · cases forced
      · exact ⟨known, unused.deployments, unused.identities⟩
    · rintro ⟨known, deployments, identities⟩
      exact ⟨known, .inr ⟨deployments, identities⟩⟩
  · rintro ⟨k, inv'⟩ removal
    obtain ⟨_, old⟩ := removeKey_eq_ok_iff.mp removal
    exact removeKey_eq_ok_iff.mpr ⟨.inl rfl, old⟩
  · by_cases known : name ∈ inv.keyNames
    · obtain ⟨⟨k, inv'⟩, removal⟩ := exists_removeKey_iff.mpr ⟨known, .inl rfl⟩
      have gone : inv'.Unmentioned name := by
        obtain ⟨_, _, _, _, rfl⟩ := removeKey_eq_ok_iff.mp removal
        exact sound.unmentioned_dropKey
      exact .inl ⟨k, inv', removal, removed_of_removeKey removal, gone⟩
    · exact .inr ⟨removeKey_of_not_mem known, sound.unmentioned known⟩

/-- The key `work` is linked to another one, deployed and in use, and goes only with force. -/
theorem removal_of_linkedWork :
    linkedInventory.check = [] ∧ (¬ ∃ removed, linkedInventory.removeKey "work" false = .ok removed) ∧
      ∃ k inv', linkedInventory.removeKey "work" true = .ok (k, inv') ∧
        Removed linkedInventory "work" k inv' ∧ inv'.Unmentioned "work" := by
  have clean : linkedInventory.check = [] := by decide
  obtain ⟨unforced, _, forced⟩ := removeKey_without_trace clean "work"
  refine ⟨clean, ?_, ?_⟩
  · rw [unforced]
    rintro ⟨_, _, identities⟩
    exact identities _ List.mem_cons_self rfl
  · refine forced.resolve_right ?_
    rintro ⟨_, unmentioned⟩
    exact unmentioned.identities _ List.mem_cons_self rfl

end Inventory

end Keyring

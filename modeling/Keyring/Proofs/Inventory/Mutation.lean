import Keyring.Proofs.Lifecycle.Safety
import Keyring.Proofs.Operation.Refusal

/-!
# What an edit brings in

Every edit but one keeps a consistent inventory consistent whatever it is given. A key is
put on record as it is handed in, and its links are not looked at: where one of them leads
nowhere, the inventory is not consistent any more.
-/

namespace Keyring

open Inventory Lifecycle

variable {inv inv' : Inventory} {w : World}

/-- A reference that leads nowhere names a record that is not there. -/
theorem Inventory.not_resolves_iff {names : List String} {reference : Option String} :
    ¬ Resolves names reference ↔ ∃ target, reference = some target ∧ target ∉ names := by
  simp [Resolves]

/-- With a new key an inventory is consistent just where the links of the key lead to a key on record,
itself among them. -/
theorem Inventory.Consistent.addKey_iff (sound : inv.Consistent) {k : Key} (free : inv.findKey? k.name = none) :
    Consistent { inv with keys := inv.keys ++ [k] } ↔
      Resolves (inv.keyNames ++ [k.name]) k.rotatedFrom ∧ Resolves (inv.keyNames ++ [k.name]) k.rotatedTo := by
  constructor
  · intro after
    have links := after.links k (by simp)
    rwa [keyNames_addKey] at links
  · exact sound.addKey free

namespace Edit

/-- A key is put on record that is linked to a key that is not. -/
structure Dangles (inv : Inventory) (c : Edit) (k : Key) (target : String) : Prop where
  inserts : c = .insertKey k
  free : inv.findKey? k.name = none
  linked : k.rotatedFrom = some target ∨ k.rotatedTo = some target
  missing : target ∉ inv.keyNames ∧ target ≠ k.name

/-- An edit that also hands a record back goes through as that does. -/
theorem exists_of_map_eq_ok {α : Type} {r : Except Error (α × Inventory)} (done : r.map (·.2) = .ok inv') :
    ∃ a, r = .ok (a, inv') := by
  cases r with
  | error e => cases done
  | ok result =>
    obtain rfl := Except.ok.inj done
    exact ⟨result.1, rfl⟩

theorem inventory_run (c : Edit) (w : World) :
    (outcome c.run w).2.inventory = match c.apply w.inventory with
      | .ok inv => inv
      | .error _ => w.inventory := by
  rw [run, Op.outcome_edit_changed c.atomic_work, c.changed_work]
  cases c.apply w.inventory <;> rfl

/-- An edit that goes through leaves a consistent inventory, unless it puts a key on record. Then the
links of that key must lead to a key on record. -/
theorem consistent_apply_iff (sound : inv.Consistent) {c : Edit} (done : c.apply inv = .ok inv') :
    inv'.Consistent ↔ ∀ k target, ¬ c.Dangles inv k target := by
  have kept (sound' : inv'.Consistent) (other : ∀ k, c ≠ .insertKey k) :
      inv'.Consistent ↔ ∀ k target, ¬ c.Dangles inv k target :=
    ⟨fun _ k _ dangles => other k dangles.inserts, fun _ => sound'⟩
  cases c with
  | insertKey k =>
    obtain ⟨free, rfl⟩ := insertKey_eq_ok done
    rw [sound.addKey_iff free]
    constructor
    · rintro ⟨fromThere, toThere⟩ _ target ⟨⟨⟩, -, linked, missing, other⟩
      have there : target ∈ inv.keyNames ++ [k.name] := by
        rcases linked with linked | linked
        · exact fromThere target linked
        · exact toThere target linked
      rcases List.mem_append.mp there with known | self
      · exact missing known
      · exact other (List.mem_singleton.mp self)
    · intro none
      have resolves : ∀ reference, (∀ target, reference = some target →
          k.rotatedFrom = some target ∨ k.rotatedTo = some target) →
          Resolves (inv.keyNames ++ [k.name]) reference := by
        intro reference linked
        by_contra nowhere
        obtain ⟨target, is, missing⟩ := not_resolves_iff.mp nowhere
        rw [List.mem_append, List.mem_singleton, not_or] at missing
        exact none k target ⟨rfl, free, linked target is, missing⟩
      exact ⟨resolves _ fun _ => .inl, resolves _ fun _ => .inr⟩
  | insertHost h => exact kept (sound.insertHost done) (by intro k is; cases is)
  | removeKey name force =>
    obtain ⟨k, removed⟩ := exists_of_map_eq_ok done
    exact kept (sound.removeKey removed) (by intro k is; cases is)
  | removeHost label =>
    obtain ⟨h, removed⟩ := exists_of_map_eq_ok done
    exact kept (sound.removeHost removed) (by intro k is; cases is)
  | recordDeployment key host method now => exact kept (sound.recordDeployment done) (by intro k is; cases is)
  | removeDeployment key host =>
    obtain ⟨d, removed⟩ := exists_of_map_eq_ok done
    exact kept (sound.removeDeployment removed) (by intro k is; cases is)
  | markVerified key host now => exact kept (sound.markVerified done) (by intro k is; cases is)

/-- Where nothing is found in an inventory, nothing is found after an edit, whatever it is given and
whether it goes through or not, just where it puts no key on record that is linked to one that is not. -/
theorem check_after_edit (clean : w.inventory.check = []) (c : Edit) :
    (outcome c.run w).2.inventory.check = [] ↔ ∀ k target, ¬ c.Dangles w.inventory k target := by
  have sound := check_eq_nil_iff.mp clean
  rw [check_eq_nil_iff, inventory_run]
  cases done : c.apply w.inventory with
  | ok inv' => exact consistent_apply_iff sound done
  | error e =>
    refine ⟨fun _ k target dangles => ?_, fun _ => sound⟩
    -- a key whose name is free is not refused
    have taken : w.inventory.insertKey k = .error e := by rw [← done, dangles.inserts]; rfl
    rw [insertKey_eq, dangles.free] at taken
    cases taken

/-- A key that follows one that is not on record. -/
def strayKey : Key where
  name := "work"
  algorithm := .ed25519
  bits := some 256
  comment := ""
  fingerprint := "SHA256:work"
  privateFile := "vault/keys/work"
  publicFile := "vault/keys/work.pub"
  publicLine := "ssh-ed25519 AAAA"
  createdAt := ⟨0, 0⟩
  expiresAt := none
  status := .active
  rotatedFrom := some "ghost"
  rotatedTo := none
  managed := false
  tags := []

/-- It is put on record in an empty inventory, and then `check` finds its link. -/
theorem check_after_edit_of_strayKey : Request.freshWorld.inventory.check = [] ∧
    (outcome (Edit.insertKey strayKey).run Request.freshWorld).1 = .ok () ∧
      (outcome (Edit.insertKey strayKey).run Request.freshWorld).2.inventory.check ≠ [] := by
  have clean : Request.freshWorld.inventory.check = [] := by decide
  refine ⟨clean, by decide, fun none => ?_⟩
  refine (check_after_edit clean (.insertKey strayKey)).mp none strayKey "ghost" ?_
  exact ⟨rfl, by decide, .inl rfl, by decide, by decide⟩

end Edit

end Keyring

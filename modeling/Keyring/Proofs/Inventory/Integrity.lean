import Keyring.Proofs.Inventory.Edits
import Keyring.Proofs.Operation.Request

/-!
# References stay intact

Whatever is asked for in whatever order, and whatever the files and the tools
do, an inventory that was consistent stays consistent: each effect keeps it so
(`Effect.consistent`), and a run is a row of effects.
-/

namespace Keyring

open Inventory Lifecycle Remote Time

variable {inv inv' : Inventory}

/-- The name of a key that was found is among the names. -/
theorem Inventory.name_mem_of_activeKey {name : String} {k : Key}
    (active : inv.activeKey name = .ok k) : k.name ∈ inv.keyNames := by
  unfold activeKey at active
  cases known : inv.key name with
  | error e => simp [known, bind, Except.bind] at active
  | ok found =>
    simp only [known, bind, Except.bind] at active
    split at active
    · obtain rfl := Except.ok.inj active
      exact List.mem_map_of_mem (mem_of_key known).1
    · cases active

theorem Lifecycle.Enters.consistent {name : String} {k : Key} (entered : Enters inv name k inv')
    (sound : inv.Consistent) : inv'.Consistent := by
  have named := entered.name_eq
  obtain ⟨_, free, record, rfl⟩ := entered
  refine sound.addKey (by rw [named]; exact free) ?_
  obtain ⟨_, _, _, _, _, _, _, _, _, -, rfl⟩ := record
  exact ⟨fun n none => by simp [recordOf] at none, fun n none => by simp [recordOf] at none⟩

/-- Two keys on record may be linked, and hosts may go from one to the other. -/
theorem Lifecycle.consistent_linkRotation {old new : String} (sound : inv.Consistent)
    (oldKnown : old ∈ inv.keyNames) (newKnown : new ∈ inv.keyNames) :
    (linkRotation inv old new).Consistent := by
  have marked : Consistent (inv.changeKey old fun k =>
      { k with status := .rotated, rotatedTo := some new }) := by
    refine sound.changeKey (fun _ => rfl) fun k member => ⟨(sound.links k member).1, ?_⟩
    rintro _ ⟨⟩
    exact newKnown
  have names : (inv.changeKey old fun k =>
      { k with status := .rotated, rotatedTo := some new }).keyNames = inv.keyNames :=
    keyNames_changeKey fun _ => rfl
  refine Consistent.switchHosts (Consistent.changeKey marked ?_ ?_) ?_ ?_
  · exact fun _ => rfl
  · refine fun k member => ⟨?_, (marked.links k member).2⟩
    rintro _ ⟨⟩
    rw [names]
    exact oldKnown
  · intro h
    split <;> rfl
  · intro h member
    rw [keyNames_changeKey, names]
    · split
      · rintro _ ⟨⟩
        exact newKnown
      · exact sound.identities h member
    · exact fun _ => rfl

theorem Lifecycle.Rotates.consistent {req : Rotation} {o : RotationOutcome}
    (rotated : Rotates inv req o inv') (sound : inv.Consistent) : inv'.Consistent := by
  obtain ⟨old, made, mid, active, entered, -, -, rfl⟩ := rotated.succession
  have names : mid.keyNames = inv.keyNames ++ [made.name] := by
    rw [entered.added]; simp [keyNames]
  refine consistent_linkRotation (entered.consistent sound) ?_ (by simp [names])
  rw [names]
  exact List.mem_append_left _ (name_mem_of_activeKey active)

/-- No effect leaves a reference without its record or gives a name twice. -/
theorem Effect.consistent {r : Request} (effect : Effect inv r inv') (sound : inv.Consistent) :
    inv'.Consistent := by
  cases effect with
  | nothing => exact sound
  | generate entered => exact entered.consistent sound
  | importKey entered => exact entered.consistent sound
  | rotate rotated => exact rotated.consistent sound
  | revokeKey => exact sound.changeKey (fun _ => rfl) sound.links
  | setExpiry => exact sound.changeKey (fun _ => rfl) sound.links
  | removeKey removed => exact sound.removeKey removed
  | addHost _ inserted => exact sound.insertHost inserted
  | @updateHost label change known =>
    refine sound.changeHost (fun _ => rfl) fun h member name is => ?_
    simp only [HostChange.apply] at is
    split at is
    · cases is
    · cases hi : change.identity with
      | none => exact sound.identities h member name (by simpa [hi] using is)
      | some i =>
        obtain ⟨k, found⟩ := known i hi
        obtain rfl : i = name := by simpa [hi] using is
        exact mem_keyNames_of_key found
  | removeHost removed => exact sound.removeHost removed
  | testConnection => exact sound.changeHost (fun _ => rfl) sound.identities
  | deploy _ recorded => exact sound.recordDeployment recorded
  | markDeployed _ recorded => exact sound.recordDeployment recorded
  | verify marked => exact sound.markVerified marked
  | revoke removed => exact sound.removeDeployment removed

theorem Inventory.Reaches.consistent {start : Inventory} (run : Reaches start inv)
    (sound : start.Consistent) : inv.Consistent := by
  induction run with
  | start => exact sound
  | step vault r _ ih => exact (r.effect vault _).consistent ih

/-- After each request of a run, whether it succeeded or not, an inventory in which nothing was wrong
at first has nothing wrong in it. -/
theorem Inventory.check_eq_nil_of_reaches {start : Inventory} (clean : start.check = [])
    (run : Reaches start inv) : inv.check = [] :=
  check_eq_nil_iff.2 (run.consistent (check_eq_nil_iff.1 clean))

/-- The key `work`, which followed `old`, deployed beside it on the one host that it logs in to. -/
def linkedInventory : Inventory :=
  let key (name : String) (status : KeyStatus) (rotatedFrom rotatedTo : Option String) : Key :=
    ⟨name, .ed25519, some 256, "", "SHA256:" ++ name, "keys/" ++ name, "keys/" ++ name ++ ".pub", "",
      ⟨0, 0⟩, none, status, rotatedFrom, rotatedTo, true, []⟩
  { version := currentVersion
    keys := [key "old" .rotated none (some "work"), key "work" .active (some "old") none]
    hosts := [⟨"web", "example.org", "root", 22, some "work", [], ⟨0, 0⟩, none, none, none⟩]
    deployments := [⟨"old", "web", ⟨0, 0⟩, .copied, none⟩, ⟨"work", "web", ⟨0, 0⟩, .copied, none⟩] }

/-- A world with an inventory and nothing else. -/
def bareWorld (inv : Inventory) : World := ⟨inv, ⟨[], [], ⟨0, 0⟩⟩, [], true, [], .absent, []⟩

/-- That world when `work` has been removed with all that uses it. -/
def worldWithoutWork : World :=
  (Request.removeKey "work" true false).after "vault" (bareWorld linkedInventory)

theorem check_eq_nil_after_removal :
    linkedInventory.check = [] ∧ worldWithoutWork.inventory.joints = [("old", "web")] ∧
      ((Request.deploy "work" "web" none ⟨0, 0⟩).after "vault" worldWithoutWork).inventory.check
        = [] :=
  have removed : Reaches linkedInventory worldWithoutWork.inventory :=
    .step "vault" (.removeKey "work" true false) .start
  ⟨by decide, by decide, check_eq_nil_of_reaches (by decide) (.step _ _ removed)⟩

end Keyring

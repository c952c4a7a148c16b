import Keyring.Proofs.Inventory.KeySteps
import Keyring.Proofs.Lifecycle.DefaultName
import Keyring.Proofs.Remote.Answers

/-!
# What a rotation leaves on record

A rotation marks the old key where it stands, puts the new one last and lets the hosts of the old one
go over to it; nothing else on record changes (`Supersedes`). Whether it succeeds is settled when the
new key is made.
-/

namespace Keyring.Lifecycle

open Inventory Op Time

variable {vault : Path} {req : Rotation} {now : Instant} {w w' : World} {inv mid : Inventory}
  {old made : Key} {newName : String}

theorem exists_record_of_generate {new : NewKey} (run : outcome (generate vault new now) w = (.ok made, w')) :
    ∃ pub due, made = recordOf new.name pub (new.comment.getD (new.name ++ "@ssh-vault"))
      (Layout.privateFile vault new.name) (Layout.publicFile vault new.name) now due true new.tags := by
  obtain ⟨pub, _, due, _, _, record, _⟩ := of_generate_ok run
  exact ⟨pub, due, record⟩

/-- What a rotation makes of an inventory. -/
structure Supersedes (inv : Inventory) (old : Key) (o : RotationOutcome) (inv' : Inventory) : Prop where
  active : old.status = .active
  old_eq : o.old = old.name
  new : o.new.status = .active ∧ o.new.rotatedFrom = some old.name ∧ o.new.rotatedTo = none ∧
    o.new.tags = old.tags
  free : o.new.name ∉ inv.keyNames
  keys : ∃ front back, inv.keys = front ++ old :: back ∧
    inv'.keys = front ++ { old with status := .rotated, rotatedTo := some o.new.name } :: back ++ [o.new]
  hosts : inv'.hosts = inv.hosts.map fun h =>
    if h.identity = some old.name then { h with identity := some o.new.name } else h
  deployments : inv'.deployments = inv.deployments
  version : inv'.version = inv.version
  released : ∀ h ∈ inv'.hosts, h.identity ≠ some old.name
  identitiesSwitched : o.identitiesSwitched =
    (inv.hosts.filter (·.identity = some old.name)).map (·.label)
  hostsToRedeploy : o.hostsToRedeploy = (inv.deployments.filter (·.key = old.name)).map (·.host)
  undeployed : ∀ label ∈ o.hostsToRedeploy, (o.new.name, label) ∉ inv'.joints

/-- The old key is marked where it stands, and the new one comes last. -/
theorem keys_linkRotation (active : inv.activeKey req.name = .ok old) (entered : Enters inv newName made mid) :
    ∃ front back, inv.keys = front ++ old :: back ∧
      (linkRotation mid old.name newName).keys =
        front ++ followedBy newName old :: back ++ [following old.name made] := by
  obtain ⟨front, back, split, before, fits⟩ := split_of_find? (findKey?_of_activeKey active)
  refine ⟨front, back, split, ?_⟩
  have named : made.name = newName := entered.name_eq
  have free : newName ∉ inv.keyNames := findKey?_eq_none_iff.mp entered.free
  have marked : (mid.changeKey old.name (followedBy newName)).keys =
      front ++ followedBy newName old :: back ++ [made] := by
    rw [entered.added, changeKey, split, List.append_assoc, List.cons_append, changeFirst_append before fits]
    simp
  -- the marked key keeps its name, so the first key of the new name is still the last one
  have others : ∀ k ∈ front ++ followedBy newName old :: back, decide (k.name = newName) = false := by
    intro k inside
    have listed : k.name ∈ inv.keyNames := by
      have same : (front ++ followedBy newName old :: back).map (·.name) = inv.keyNames := by
        simp [keyNames, split, followedBy]
      rw [← same]
      exact List.mem_map_of_mem inside
    rw [decide_eq_false_iff_not]
    intro same
    exact free (same ▸ listed)
  show changeFirst _ (following old.name) (mid.changeKey old.name (followedBy newName)).keys = _
  rw [marked]
  exact changeFirst_append others (by simpa using named)

/-- The hosts of the old key go over to the new one, so that none is left to the old one. -/
theorem identity_ne_of_switched (apart : newName ≠ old.name) {h : Host}
    (member : h ∈ inv.hosts.map (switchHost old.name newName)) : h.identity ≠ some old.name := by
  obtain ⟨before, _, rfl⟩ := List.mem_map.mp member
  unfold switchHost
  split
  · simpa using apart
  · assumption

/-- In a consistent inventory no deployment is of a key that is not on record yet. -/
theorem not_mem_joints (sound : inv.Consistent) (free : newName ∉ inv.keyNames) (label : String) :
    (newName, label) ∉ inv.joints := by
  intro joined
  obtain ⟨d, inside, same⟩ := List.mem_map.mp joined
  apply free
  rw [← (Prod.mk.inj same).1]
  exact (sound.joined d inside).1

theorem supersedes_link (sound : inv.Consistent) (active : inv.activeKey req.name = .ok old)
    (entered : Enters inv newName made mid) (tags : made.tags = old.tags) :
    Supersedes inv old ⟨old.name, following old.name made, inv.hostNamesOf old.name,
      (inv.hostsUsing old.name).map (·.label)⟩ (linkRotation mid old.name newName) := by
  obtain ⟨apart, _, _⟩ := entered.lookups active
  obtain ⟨isActive, _, unfollowed⟩ := entered.fresh
  have named : (following old.name made).name = newName := entered.name_eq
  have free : newName ∉ inv.keyNames := findKey?_eq_none_iff.mp entered.free
  have hosts : (linkRotation mid old.name newName).hosts = inv.hosts.map (switchHost old.name newName) := by
    rw [entered.added]
    rfl
  have deployments : (linkRotation mid old.name newName).deployments = inv.deployments := by
    rw [entered.added]
    rfl
  exact {
    active := (activeKey_eq_ok_iff.mp active).2
    old_eq := rfl
    new := ⟨isActive, rfl, unfollowed, tags⟩
    free := by rw [named]; exact free
    keys := by rw [named]; exact keys_linkRotation active entered
    hosts := by rw [named]; exact hosts
    deployments := deployments
    version := by rw [entered.added]; rfl
    released := by
      intro h member
      rw [hosts] at member
      exact identity_ne_of_switched apart member
    identitiesSwitched := rfl
    hostsToRedeploy := rfl
    undeployed := by
      intro label _
      rw [named, joints, deployments]
      exact not_mem_joints sound free label }

/-- In a consistent inventory a rotation marks the old key where it stands, puts the new one last, with a
link back and the tags of the old one, lets the hosts of the old key go over to it, and changes nothing
else on record. Once the new key has been made it succeeds. -/
theorem rotate_supersedes (clean : w.inventory.check = []) (vault : Path) (req : Rotation) (now : Instant) :
    (∀ o w', outcome (rotate vault req now) w = (.ok o, w') →
      ∃ old, old.name = req.name ∧ Supersedes w.inventory old o w'.inventory) ∧
    ∀ old, w.inventory.activeKey req.name = .ok old → ∀ newName,
      req.newName.getD (rotationName w.inventory w.disk vault old.name now) = newName → ∀ made w',
      outcome (generate vault (successor old req newName) now) w = (.ok made, w') →
      ∃ o inv', outcome (rotate vault req now) w = (.ok o, { w' with inventory := inv' }) ∧
        o.new = { made with rotatedFrom := some old.name } := by
  constructor
  · intro o w' run
    cases active : w.inventory.activeKey req.name with
    | error e =>
      rw [outcome_rotate_refused active] at run
      cases run
    | ok old =>
      generalize named : req.newName.getD (rotationName w.inventory w.disk vault old.name now) = newName
      have committed := generate_commits vault (successor old req newName) now w.inventory w rfl
      rw [outcome_rotate active named] at run
      rcases made : outcome (generate vault (successor old req newName) now) w with ⟨e | k, w₁⟩
      · rw [made] at run
        cases run
      · rw [made] at run committed
        obtain ⟨pub, due, record⟩ := exists_record_of_generate made
        have tags : k.tags = old.tags := by
          rw [record]
          rfl
        cases run
        have oldName : old.name = req.name := (mem_of_key (activeKey_eq_ok_iff.mp active).1).2
        exact ⟨old, oldName, supersedes_link (check_eq_nil_iff.mp clean) active committed.enters tags⟩
  · intro old active newName named made w' run
    rw [outcome_rotate active named, run]
    exact ⟨_, _, rfl, rfl⟩

/-- The key `work` with a key that it followed, and a host that is still left to that one. -/
def linkedWorld : World :=
  let forgotten : Host := ⟨"db", "db.example", "root", 22, some "old", [], ⟨0, 0⟩, none, none, none⟩
  { Request.freshWorld with inventory := { linkedInventory with hosts := forgotten :: linkedInventory.hosts } }

theorem rotate_supersedes_of_linkedWorld : linkedWorld.inventory.check = [] ∧
    ∃ o w', outcome (rotate "vault" followWork ⟨0, 0⟩) linkedWorld = (.ok o, w') ∧
      ∃ old, old.name = "work" ∧ Supersedes linkedWorld.inventory old o w'.inventory := by
  have clean : linkedWorld.inventory.check = [] := by decide +kernel
  have done : (outcome (rotate "vault" followWork ⟨0, 0⟩) linkedWorld).1.isOk = true := by decide +kernel
  rcases run : outcome (rotate "vault" followWork ⟨0, 0⟩) linkedWorld with ⟨e | o, w'⟩
  · rw [run] at done
    cases done
  · exact ⟨clean, o, w', rfl, (rotate_supersedes clean "vault" followWork ⟨0, 0⟩).1 o w' run⟩

end Keyring.Lifecycle

import Keyring.Proofs.Inventory.Integrity

/-!
# What a request does to the keys

Of the fourteen requests six touch keys, and each does one thing to the list of them:
it adds a key, adds one and marks another, changes one, or takes one out. What holds of
all keys in every run is proved for these few steps (`KeyStep`).
-/

namespace Keyring

open Inventory Lifecycle Time

/-- Where names are distinct, the first record of a name is the only one. -/
theorem Inventory.changeFirst_eq_map {α : Type} {name : α → String} {n : String} (change : α → α)
    {items : List α} (distinct : (items.map name).Nodup) :
    changeFirst (name · = n) change items = items.map fun a => if name a = n then change a else a := by
  induction items with
  | nil => rfl
  | cons a rest ih =>
    rw [List.map_cons, List.nodup_cons] at distinct
    obtain ⟨alone, others⟩ := distinct
    by_cases same : name a = n
    · have kept : rest.map (fun b => if name b = n then change b else b) = rest := by
        refine (List.map_congr_left fun b inside => ?_).trans (List.map_id rest)
        have other : name b ≠ n := fun again =>
          alone (List.mem_map.mpr ⟨b, inside, again.trans same.symm⟩)
        simp [other]
      simp [changeFirst, same, kept]
    · simp [changeFirst, same, ih others]

variable {inv inv' : Inventory} {name : String}

theorem Inventory.keys_changeKey (distinct : inv.keyNames.Nodup) (change : Key → Key) :
    (inv.changeKey name change).keys = inv.keys.map fun k => if k.name = name then change k else k :=
  changeFirst_eq_map change distinct

/-- Two keys on record under one name are the same. -/
theorem Inventory.eq_of_name_eq (distinct : inv.keyNames.Nodup) {x y : Key} (xKnown : x ∈ inv.keys)
    (yKnown : y ∈ inv.keys) (same : x.name = y.name) : x = y :=
  List.inj_on_of_nodup_map distinct xKnown yKnown same

theorem Inventory.findKey?_of_mem (distinct : inv.keyNames.Nodup) {k : Key} (member : k ∈ inv.keys) :
    inv.findKey? k.name = some k := by
  cases found : inv.findKey? k.name with
  | none => exact absurd (List.mem_map_of_mem member) (findKey?_eq_none_iff.mp found)
  | some first =>
    have named : first.name = k.name := name_of_findKey? found
    have known : first ∈ inv.keys := List.mem_of_find?_eq_some found
    rw [eq_of_name_eq distinct known member named]

/-- The keys that are left when a name was dropped: those of other names, without a link to it. -/
theorem Inventory.mem_keys_dropKey (distinct : inv.keyNames.Nodup) {k : Key}
    (member : k ∈ (inv.dropKey name).keys) :
    ∃ old ∈ inv.keys, old.name ≠ name ∧ k = unlinkKey name old := by
  obtain ⟨old, inside, rfl⟩ := List.mem_map.mp member
  refine ⟨old, List.mem_of_mem_eraseP inside, ?_, rfl⟩
  have left : old.name ∈ inv.keyNames.erase name := by
    rw [keyNames, ← map_eraseP_name]
    exact List.mem_map_of_mem inside
  exact (distinct.mem_erase_iff.mp left).1

/-- What a request may do to the keys on record. -/
inductive KeyStep (inv : Inventory) : List Key → Prop where
  | none : KeyStep inv inv.keys
  | entered {name : String} {k : Key} {inv' : Inventory} : Enters inv name k inv' → KeyStep inv inv'.keys
  | rotated {req : Rotation} {o : RotationOutcome} {inv' : Inventory} :
      Rotates inv req o inv' → KeyStep inv inv'.keys
  | revoked (name : String) :
      KeyStep inv (inv.changeKey name fun k => { k with status := .revoked }).keys
  | expiring (name : String) (expiresAt : Option Instant) :
      KeyStep inv (inv.changeKey name fun k => { k with expiresAt := expiresAt }).keys
  | dropped (name : String) : KeyStep inv (inv.dropKey name).keys

theorem Effect.keyStep {r : Request} (effect : Effect inv r inv') : KeyStep inv inv'.keys := by
  cases effect with
  | nothing => exact .none
  | generate entered => exact .entered entered
  | importKey entered => exact .entered entered
  | rotate rotated => exact .rotated rotated
  | revokeKey => exact .revoked _
  | setExpiry => exact .expiring _ _
  | removeKey removed =>
    obtain ⟨_, _, _, rfl⟩ := removeKey_eq_ok removed
    exact .dropped _
  | addHost _ inserted =>
    obtain ⟨_, _, rfl⟩ := insertHost_eq_ok inserted
    exact .none
  | updateHost => exact .none
  | removeHost removed =>
    rw [removeHost_eq_ok removed]
    exact .none
  | testConnection => exact .none
  | deploy _ recorded =>
    obtain ⟨_, rfl⟩ := of_recordDeployment recorded
    exact .none
  | markDeployed _ recorded =>
    obtain ⟨_, rfl⟩ := of_recordDeployment recorded
    exact .none
  | verify marked =>
    rw [markVerified_eq_ok marked]
    exact .none
  | revoke removed =>
    rw [removeDeployment_eq_ok removed]
    exact .none

def markFollowed (old new : String) (k : Key) : Key := if k.name = old then followedBy new k else k

@[simp] theorem name_markFollowed (old new : String) (k : Key) : (markFollowed old new k).name = k.name := by
  unfold markFollowed
  split <;> rfl

@[simp] theorem rotatedFrom_markFollowed (old new : String) (k : Key) :
    (markFollowed old new k).rotatedFrom = k.rotatedFrom := by
  unfold markFollowed
  split <;> rfl

theorem markFollowed_of_eq {old new : String} {k : Key} (same : k.name = old) :
    markFollowed old new k = followedBy new k := if_pos same

theorem markFollowed_of_ne {old new : String} {k : Key} (other : k.name ≠ old) :
    markFollowed old new k = k := if_neg other

/-- What a rotation does where names are distinct: an active key is marked, and the new key comes
last under a name of its own. -/
structure Succeeds (inv : Inventory) (o : RotationOutcome) (keys : List Key) : Prop where
  active : ∃ old ∈ inv.keys, old.name = o.old ∧ old.status = .active
  free : o.new.name ∉ inv.keyNames
  links : o.new.rotatedFrom = some o.old ∧ o.new.rotatedTo = none
  keys_eq : keys = inv.keys.map (markFollowed o.old o.new.name) ++ [o.new]

/-- A key that comes on record is in use and has no links. -/
theorem Lifecycle.Enters.fresh {k : Key} (entered : Enters inv name k inv') :
    k.status = .active ∧ k.rotatedFrom = none ∧ k.rotatedTo = none := by
  obtain ⟨_, _, _, _, _, _, _, _, _, _, made⟩ := entered.record
  rw [made]
  exact ⟨rfl, rfl, rfl⟩

theorem Lifecycle.Enters.keyNames_eq {k : Key} (entered : Enters inv name k inv') :
    inv'.keyNames = inv.keyNames ++ [k.name] := by
  rw [entered.added]
  exact List.map_append

theorem Lifecycle.Enters.not_mem_keyNames {k : Key} (entered : Enters inv name k inv') : k.name ∉ inv.keyNames := by
  rw [entered.name_eq]
  exact findKey?_eq_none_iff.mp entered.free

theorem Lifecycle.Enters.distinct {k : Key} (entered : Enters inv name k inv')
    (distinct : inv.keyNames.Nodup) : inv'.keyNames.Nodup := by
  rw [entered.keyNames_eq, ← List.concat_eq_append, List.nodup_concat]
  exact ⟨entered.not_mem_keyNames, distinct⟩

theorem Lifecycle.Rotates.succeeds {req : Rotation} {o : RotationOutcome}
    (rotated : Rotates inv req o inv') (distinct : inv.keyNames.Nodup) : Succeeds inv o inv'.keys := by
  obtain ⟨old, made, mid, isActive, entered, oldIs, newIs, rfl⟩ := rotated.succession
  obtain ⟨known, active⟩ := activeKey_eq_ok_iff.mp isActive
  obtain ⟨member, _⟩ := mem_of_key known
  have free : made.name ∉ inv.keyNames := entered.not_mem_keyNames
  have apart : made.name ≠ old.name := fun same => free (same ▸ List.mem_map_of_mem member)
  have newName : o.new.name = made.name := by rw [newIs]
  refine ⟨⟨old, member, oldIs.symm, active⟩, by rw [newName]; exact free, ?_, ?_⟩
  · rw [newIs, oldIs]
    exact ⟨rfl, entered.fresh.2.2⟩
  -- the two changes one after the other, each at the only key of its name
  have midDistinct := entered.distinct distinct
  have names : (mid.changeKey old.name (followedBy made.name)).keyNames = mid.keyNames :=
    keyNames_changeKey fun _ => rfl
  have linked : (linkRotation mid old.name made.name).keys =
      (mid.changeKey old.name (followedBy made.name)).keys.map fun k =>
        if k.name = made.name then following old.name k else k :=
    keys_changeKey (names.symm ▸ midDistinct) (following old.name)
  rw [linked, keys_changeKey midDistinct, entered.added, oldIs, newName, newIs]
  simp only [List.map_append, List.map_map, List.map_cons, List.map_nil, apart, ↓reduceIte]
  congr 1
  refine List.map_congr_left fun k inside => ?_
  have other : k.name ≠ made.name := fun same => free (same ▸ List.mem_map_of_mem inside)
  by_cases isOld : k.name = old.name
  · simp [markFollowed, isOld, followedBy, Ne.symm apart]
  · simp [markFollowed, isOld, other]

end Keyring

import Keyring.Proofs.Inventory.KeySteps
import Keyring.Proofs.Lifecycle.Safety

/-!
# Keys that are in use no more

A key that was followed or revoked only winds down: until it is removed it never comes
back into use, and is neither put on a host again nor has a deployment refreshed. An
edit of the deployments asks for no status itself, so this rests on the requests that
make it: each asks for an active key first (`Effect.termsOf_sublist`).
-/

namespace Keyring

open Inventory Lifecycle Remote Time

variable {inv inv' : Inventory} {keys : List Key} {k k' : Key} {name : String}

theorem KeyStep.distinct (step : KeyStep inv keys) (distinct : inv.keyNames.Nodup) :
    (keys.map (·.name)).Nodup := by
  have changed {name : String} {change : Key → Key} (named : ∀ k, (change k).name = k.name) :
      (inv.changeKey name change).keyNames.Nodup := by
    rw [keyNames_changeKey named]
    exact distinct
  cases step with
  | none => exact distinct
  | entered entered => exact entered.distinct distinct
  | rotated rotated =>
    obtain ⟨-, free, -, is⟩ := rotated.succeeds distinct
    simp only [is, List.map_append, List.map_map, Function.comp_def, name_markFollowed,
      List.map_singleton]
    rw [← List.concat_eq_append, List.nodup_concat]
    exact ⟨free, distinct⟩
  | revoked name => exact changed fun _ => rfl
  | expiring name expiresAt => exact changed fun _ => rfl
  | dropped name =>
    have names : (inv.dropKey name).keyNames.Nodup := keyNames_dropKey ▸ distinct.erase name
    exact names

/-- A key that is in use no more keeps its status or is revoked. -/
theorem KeyStep.status_eq (step : KeyStep inv keys) (distinct : inv.keyNames.Nodup)
    (known : k ∈ inv.keys) (retired : k.status ≠ .active) (after : k' ∈ keys)
    (same : k'.name = k.name) : k'.status = k.status ∨ k'.status = .revoked := by
  have only : ∀ x ∈ inv.keys, x.name = k.name → x = k := fun x inside =>
    eq_of_name_eq distinct inside known
  have listed : k'.name ∈ inv.keyNames := by
    rw [same]
    exact List.mem_map_of_mem known
  cases step with
  | none => exact .inl (congrArg Key.status (only k' after same))
  | @entered _ new _ entered =>
    rw [entered.added] at after
    rcases List.mem_append.mp after with old | last
    · exact .inl (congrArg Key.status (only k' old same))
    · obtain rfl := List.mem_singleton.mp last
      exact absurd listed entered.not_mem_keyNames
  | @rotated _ o _ rotated =>
    obtain ⟨⟨old, oldKnown, oldName, active⟩, free, -, is⟩ := rotated.succeeds distinct
    rw [is] at after
    rcases List.mem_append.mp after with marked | last
    · obtain ⟨x, inside, rfl⟩ := List.mem_map.mp marked
      obtain rfl := only x inside (by simpa using same)
      -- only a key in use is followed
      have other : x.name ≠ o.old := fun isOld =>
        retired (only old oldKnown (oldName.trans isOld.symm) ▸ active)
      rw [markFollowed_of_ne other]
      exact .inl rfl
    · obtain rfl := List.mem_singleton.mp last
      exact absurd listed free
  | revoked name =>
    rcases of_mem_changeFirst after with old | ⟨x, -, rfl⟩
    · exact .inl (congrArg Key.status (only k' old same))
    · exact .inr rfl
  | expiring name expiresAt =>
    rcases of_mem_changeFirst after with old | ⟨x, inside, rfl⟩
    · exact .inl (congrArg Key.status (only k' old same))
    · have is := only x inside same
      exact .inl (is ▸ rfl)
  | dropped name =>
    obtain ⟨x, inside, -, rfl⟩ := mem_keys_dropKey distinct after
    have is := only x inside same
    exact .inl (is ▸ rfl)

/-- On which hosts a key is deployed, how it came there and when. -/
def Inventory.termsOf (inv : Inventory) (name : String) : List (String × DeployMethod × Instant) :=
  (inv.deploymentsOfKey name).map fun d => (d.host, d.method, d.deployedAt)

section Change

variable {α β : Type} {fits wanted : α → Bool} {change : α → α}

theorem Inventory.filter_changeFirst_of_ne
    (apart : ∀ a, fits a = true → wanted a = false ∧ wanted (change a) = false) (items : List α) :
    (changeFirst fits change items).filter wanted = items.filter wanted := by
  induction items with
  | nil => rfl
  | cons a rest ih =>
    by_cases fit : fits a = true
    · obtain ⟨before, after⟩ := apart a fit
      simp [changeFirst, fit, before, after]
    · by_cases want : wanted a = true
      · simp [changeFirst, fit, want, ih]
      · simp [changeFirst, fit, want, ih]

/-- A change that cannot be seen leaves what is seen of the wanted ones. -/
theorem Inventory.map_filter_changeFirst {view : α → β}
    (unseen : ∀ a, wanted (change a) = wanted a ∧ view (change a) = view a) (items : List α) :
    ((changeFirst fits change items).filter wanted).map view = (items.filter wanted).map view := by
  induction items with
  | nil => rfl
  | cons a rest ih =>
    rw [changeFirst]
    split
    · by_cases want : wanted a = true
      · simp [(unseen a).1, (unseen a).2, want]
      · simp [(unseen a).1, want]
    · by_cases want : wanted a = true
      · simp [want, ih]
      · simp [want, ih]

end Change

theorem Inventory.termsOf_sublist {deployments : List Deployment}
    (fewer : deployments.Sublist inv.deployments) :
    (termsOf { inv with deployments := deployments } name).Sublist (inv.termsOf name) :=
  (fewer.filter _).map _

theorem Inventory.termsOf_recordDeployment {key host : String} {method : DeployMethod} {now : Instant}
    (recorded : inv.recordDeployment key host method now = .ok inv') (other : key ≠ name) :
    inv'.termsOf name = inv.termsOf name := by
  refine congrArg (List.map _) ?_
  obtain ⟨-, -, ⟨-, rfl⟩ | ⟨-, rfl⟩⟩ := recordDeployment_eq_ok recorded
  · refine filter_changeFirst_of_ne (fun d joins => ?_) inv.deployments
    have isKey : d.key = key := (by simpa [Deployment.joins] using joins : d.key = key ∧ _).1
    simp [isKey, other]
  · show (inv.deployments ++ [_]).filter _ = inv.deployments.filter _
    simp [other]

theorem Inventory.termsOf_markVerified {key host : String} {now : Instant}
    (marked : inv.markVerified key host now = .ok inv') : inv'.termsOf name = inv.termsOf name := by
  rw [markVerified_eq_ok marked]
  show List.map _ ((changeFirst _ _ inv.deployments).filter _) = _
  exact map_filter_changeFirst (fun d => by exact ⟨rfl, rfl⟩) inv.deployments

/-- Where names are distinct, a name that is asked for as active is not that of a retired key. -/
theorem Inventory.ne_of_activeKey (distinct : inv.keyNames.Nodup) (known : k ∈ inv.keys)
    (retired : k.status ≠ .active) (active : inv.activeKey name = .ok k') : name ≠ k.name := by
  rintro rfl
  obtain ⟨found, isActive⟩ := activeKey_eq_ok_iff.mp active
  have is := Option.some.inj ((key_eq_ok_iff.mp found).symm.trans (findKey?_of_mem distinct known))
  exact retired (is ▸ isActive)

/-! ## Steps -/

/-- The request takes a key of this name off the record. -/
def Request.Removes (name : String) (r : Request) : Prop :=
  ∃ force deleteFiles, r = .removeKey name force deleteFiles

theorem Lifecycle.keyNames_linkRotation (old new : String) :
    (linkRotation inv old new).keyNames = inv.keyNames := by
  have marked : (inv.changeKey old (followedBy new)).keyNames = inv.keyNames := keyNames_changeKey fun _ => rfl
  have linked : ((inv.changeKey old (followedBy new)).changeKey new (following old)).keyNames =
      (inv.changeKey old (followedBy new)).keyNames := keyNames_changeKey fun _ => rfl
  exact linked.trans marked

/-- A name stays on record until its key is removed. -/
theorem Effect.mem_keyNames {r : Request} (effect : Effect inv r inv') (kept : ¬ r.Removes name)
    (member : name ∈ inv.keyNames) : name ∈ inv'.keyNames := by
  cases effect with
  | nothing => exact member
  | generate entered =>
    rw [entered.keyNames_eq]
    exact List.mem_append_left _ member
  | importKey entered =>
    rw [entered.keyNames_eq]
    exact List.mem_append_left _ member
  | rotate rotated =>
    obtain ⟨old, made, mid, -, entered, -, -, rfl⟩ := rotated.succession
    rw [keyNames_linkRotation, entered.keyNames_eq]
    exact List.mem_append_left _ member
  | revokeKey =>
    rw [keyNames_changeKey (by intro k; rfl)]
    exact member
  | setExpiry =>
    rw [keyNames_changeKey (by intro k; rfl)]
    exact member
  | @removeKey other force deleteFiles _ _ removed =>
    obtain ⟨_, _, _, rfl⟩ := removeKey_eq_ok removed
    have apart : name ≠ other := fun same => kept ⟨force, deleteFiles, same ▸ rfl⟩
    rw [keyNames_dropKey]
    exact (List.mem_erase_of_ne apart).mpr member
  | addHost _ inserted =>
    obtain ⟨_, _, rfl⟩ := insertHost_eq_ok inserted
    exact member
  | updateHost => exact member
  | removeHost removed =>
    rw [removeHost_eq_ok removed]
    exact member
  | testConnection => exact member
  | deploy _ recorded =>
    obtain ⟨_, rfl⟩ := of_recordDeployment recorded
    exact member
  | markDeployed _ recorded =>
    obtain ⟨_, rfl⟩ := of_recordDeployment recorded
    exact member
  | verify marked =>
    rw [markVerified_eq_ok marked]
    exact member
  | revoke removed =>
    rw [removeDeployment_eq_ok removed]
    exact member

/-- Until its removal a retired key gains no deployment, and none of those it has is refreshed. -/
theorem Effect.termsOf_sublist {r : Request} (effect : Effect inv r inv') (distinct : inv.keyNames.Nodup)
    (known : k ∈ inv.keys) (retired : k.status ≠ .active) :
    (inv'.termsOf k.name).Sublist (inv.termsOf k.name) := by
  cases effect with
  | nothing => exact .refl _
  | generate entered =>
    rw [entered.added]
    exact .refl _
  | importKey entered =>
    rw [entered.added]
    exact .refl _
  | rotate rotated =>
    obtain ⟨_, _, _, -, entered, -, -, rfl⟩ := rotated.succession
    rw [entered.added]
    exact .refl _
  | revokeKey => exact .refl _
  | setExpiry => exact .refl _
  | removeKey removed =>
    obtain ⟨_, _, _, rfl⟩ := removeKey_eq_ok removed
    exact Inventory.termsOf_sublist List.filter_sublist
  | addHost _ inserted =>
    obtain ⟨_, _, rfl⟩ := insertHost_eq_ok inserted
    exact .refl _
  | updateHost => exact .refl _
  | removeHost removed =>
    rw [removeHost_eq_ok removed]
    exact Inventory.termsOf_sublist List.filter_sublist
  | testConnection => exact .refl _
  | deploy active recorded =>
    rw [termsOf_recordDeployment recorded (ne_of_activeKey distinct known retired active)]
  | markDeployed active recorded =>
    rw [termsOf_recordDeployment recorded (ne_of_activeKey distinct known retired active)]
  | verify marked => rw [termsOf_markVerified marked]
  | revoke removed =>
    rw [removeDeployment_eq_ok removed]
    exact Inventory.termsOf_sublist List.eraseP_sublist

/-- Inventories after requests of which none removes the key of a name. -/
inductive Inventory.ReachesKeeping (name : String) (start : Inventory) : Inventory → Prop where
  | start : ReachesKeeping name start start
  | step {w : World} (vault : Path) (r : Request) : ReachesKeeping name start w.inventory →
      ¬ r.Removes name → ReachesKeeping name start (r.after vault w).inventory

variable {start : Inventory}

theorem Inventory.ReachesKeeping.reaches (run : ReachesKeeping name start inv) : Reaches start inv := by
  induction run with
  | start => exact .start
  | step vault r _ _ ih => exact .step vault r ih

theorem Inventory.Reaches.distinct (run : Reaches start inv) (distinct : start.keyNames.Nodup) :
    inv.keyNames.Nodup := by
  induction run with
  | start => exact distinct
  | step vault r _ ih => exact (r.effect vault _).keyStep.distinct ih

/-- Where key names are distinct, a key that is in use no more stays on record until it is removed. In
every run up to there its status stays as it is or becomes revoked, and each of its deployments is one
that it had, on the same host, made in the same way and at the same time. -/
theorem Inventory.retired_winds_down (distinct : start.keyNames.Nodup) (known : k ∈ start.keys)
    (retired : k.status ≠ .active) (run : ReachesKeeping k.name start inv) :
    (∃ k' ∈ inv.keys, k'.name = k.name) ∧
      (∀ k' ∈ inv.keys, k'.name = k.name → k'.status = k.status ∨ k'.status = .revoked) ∧
      (inv.termsOf k.name).Sublist (start.termsOf k.name) := by
  induction run with
  | start =>
    refine ⟨⟨k, known, rfl⟩, fun k' inside same => ?_, .refl _⟩
    exact .inl (congrArg Key.status (eq_of_name_eq distinct inside known same))
  | @step w vault r before kept ih =>
    obtain ⟨⟨mid, midKnown, midName⟩, status, fewer⟩ := ih
    have midDistinct := before.reaches.distinct distinct
    have effect := r.effect vault w
    have midRetired : mid.status ≠ .active := by
      rcases status mid midKnown midName with is | is
      · exact is ▸ retired
      · exact is ▸ nofun
    have listed : k.name ∈ w.inventory.keyNames := midName ▸ List.mem_map_of_mem midKnown
    refine ⟨List.mem_map.mp (effect.mem_keyNames kept listed), fun k' inside same => ?_, ?_⟩
    · have now := effect.keyStep.status_eq midDistinct midKnown midRetired inside (same.trans midName.symm)
      rcases now with is | is
      · rw [is]
        exact status mid midKnown midName
      · exact .inr is
    · have later := effect.termsOf_sublist midDistinct midKnown midRetired
      rw [midName] at later
      exact later.trans fewer

/-- A fresh world in which the key `work` was put on a host by hand and then replaced. -/
def servedWorld : World :=
  let made := (Request.generate ⟨"work", .ed25519, none, none, none, none, []⟩ ⟨0, 0⟩).after "vault"
    Request.freshWorld
  let known := (Request.addHost ⟨"box", "box.example", none, none, none, []⟩ none ⟨0, 0⟩).after
    "vault" made
  let served := (Request.markDeployed "work" "box" ⟨0, 0⟩).after "vault" known
  (Request.rotate ⟨"work", none, none, none, none, none⟩ ⟨60, 0⟩).after "vault" served

/-- The same where `work` is then revoked, and asked to be put on the host again. -/
def woundDownWorld : World :=
  (Request.markDeployed "work" "box" ⟨90, 0⟩).after "vault"
    ((Request.revokeKey "work").after "vault" servedWorld)

theorem retired_winds_down_of_servedWorld :
    (∃ k ∈ servedWorld.inventory.keys, k.name = "work" ∧ k.status = .rotated) ∧
      servedWorld.inventory.termsOf "work" = [("box", .manual, ⟨0, 0⟩)] ∧
      (∃ k ∈ woundDownWorld.inventory.keys, k.name = "work") ∧
      (∀ k ∈ woundDownWorld.inventory.keys, k.name = "work" → k.status = .rotated ∨ k.status = .revoked) ∧
      (woundDownWorld.inventory.termsOf "work").Sublist (servedWorld.inventory.termsOf "work") := by
  have before : servedWorld.inventory.keyNames.Nodup ∧
      servedWorld.inventory.termsOf "work" = [("box", .manual, ⟨0, 0⟩)] ∧
      ∃ k ∈ servedWorld.inventory.keys, k.name = "work" ∧ k.status = .rotated := by decide +kernel
  obtain ⟨distinct, terms, k, known, named, rotated⟩ := before
  have run : ReachesKeeping k.name servedWorld.inventory woundDownWorld.inventory :=
    .step (w := (Request.revokeKey "work").after "vault" servedWorld) "vault" _
      (.step (w := servedWorld) "vault" _ .start nofun) nofun
  have woundDown := retired_winds_down distinct known (by simp [rotated]) run
  rw [named, rotated] at woundDown
  exact ⟨⟨k, known, named, rotated⟩, terms, woundDown⟩

end Keyring

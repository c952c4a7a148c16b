import Keyring.Proofs.Inventory.Consistency
import Keyring.Proofs.Inventory.Edited
import Mathlib.Data.List.Basic

/-!
# Edits keep an inventory consistent

One lemma for each edit. An edit that adds a record asks that what the record
refers to is there, one that takes a record away takes every reference to it.
-/

namespace Keyring.Inventory

open Time

section Change

variable {α β : Type} {fits : α → Bool} {change : α → α}

theorem map_changeFirst {name : α → β} (same : ∀ a, name (change a) = name a) (items : List α) :
    (changeFirst fits change items).map name = items.map name := by
  induction items with
  | nil => rfl
  | cons a rest ih =>
    rw [changeFirst]
    split
    · simp [same]
    · simp [ih]

theorem of_mem_changeFirst {items : List α} {a : α} (member : a ∈ changeFirst fits change items) :
    a ∈ items ∨ ∃ b ∈ items, a = change b := by
  induction items with
  | nil => simp [changeFirst] at member
  | cons b rest ih =>
    rw [changeFirst] at member
    split at member
    · rcases List.mem_cons.1 member with rfl | later
      · exact .inr ⟨b, by simp, rfl⟩
      · exact .inl (by simp [later])
    · rcases List.mem_cons.1 member with rfl | later
      · exact .inl (by simp)
      · rcases ih later with inside | ⟨c, inside, rfl⟩
        · exact .inl (by simp [inside])
        · exact .inr ⟨c, by simp [inside], rfl⟩

theorem changeFirst_eq_self {items : List α} (none_ : ∀ a ∈ items, fits a = false) :
    changeFirst fits change items = items := by
  induction items with
  | nil => rfl
  | cons a rest ih =>
    obtain ⟨first, later⟩ := List.forall_mem_cons.mp none_
    simp [changeFirst, first, ih later]

theorem changeFirst_id (items : List α) : changeFirst fits (fun a => a) items = items := by
  induction items with
  | nil => rfl
  | cons a rest ih =>
    rw [changeFirst]
    split
    · rfl
    · rw [ih]

theorem changeFirst_changeFirst {f g : α → α} (keeps : ∀ a, fits (f a) = fits a) (items : List α) :
    changeFirst fits g (changeFirst fits f items) = changeFirst fits (fun a => g (f a)) items := by
  induction items with
  | nil => rfl
  | cons a rest ih =>
    by_cases first : fits a = true
    · have still : fits (f a) = true := (keeps a).trans first
      simp only [changeFirst, first, still, ↓reduceIte]
    · simp only [changeFirst, first, ih, Bool.false_eq_true, ↓reduceIte]

/-- Taking the first record of a name takes the name once. -/
theorem map_eraseP_name {α : Type} (name : α → String) (n : String) (items : List α) :
    (items.eraseP (name · = n)).map name = (items.map name).erase n := by
  induction items with
  | nil => rfl
  | cons a rest ih =>
    by_cases same : name a = n
    · simp [same]
    · simp [same, ih]

end Change

variable {inv inv' : Inventory} {name label key host : String}

theorem keyNames_changeKey {change : Key → Key} (named : ∀ k, (change k).name = k.name) :
    (inv.changeKey name change).keyNames = inv.keyNames := map_changeFirst named _

theorem Consistent.changeKey (sound : inv.Consistent) {change : Key → Key}
    (named : ∀ k, (change k).name = k.name)
    (links : ∀ k ∈ inv.keys, Resolves inv.keyNames (change k).rotatedFrom ∧
      Resolves inv.keyNames (change k).rotatedTo) : (inv.changeKey name change).Consistent := by
  have names : (inv.changeKey name change).keyNames = inv.keyNames := keyNames_changeKey named
  exact {
    keysDistinct := by rw [names]; exact sound.keysDistinct
    hostsDistinct := sound.hostsDistinct
    jointsDistinct := sound.jointsDistinct
    joined := by rw [names]; exact sound.joined
    identities := by rw [names]; exact sound.identities
    links := by
      rw [names]
      intro k member
      rcases of_mem_changeFirst member with inside | ⟨b, inside, rfl⟩
      · exact sound.links k inside
      · exact links b inside }

theorem changeHost_id : (inv.changeHost label fun h => h) = inv := by
  rw [Inventory.changeHost, changeFirst_id]

theorem changeHost_changeHost {f g : Host → Host} (named : ∀ h, (f h).label = h.label) :
    (inv.changeHost label f).changeHost label g = inv.changeHost label fun h => g (f h) := by
  unfold Inventory.changeHost
  rw [changeFirst_changeFirst fun h => by rw [named]]

theorem Consistent.changeHost (sound : inv.Consistent) {change : Host → Host}
    (named : ∀ h, (change h).label = h.label)
    (identities : ∀ h ∈ inv.hosts, Resolves inv.keyNames (change h).identity) :
    (inv.changeHost label change).Consistent := by
  have labels : (inv.changeHost label change).hostLabels = inv.hostLabels := map_changeFirst named _
  exact {
    keysDistinct := sound.keysDistinct
    hostsDistinct := by rw [labels]; exact sound.hostsDistinct
    jointsDistinct := sound.jointsDistinct
    joined := by rw [labels]; exact sound.joined
    identities := by
      intro h member
      rcases of_mem_changeFirst member with inside | ⟨b, inside, rfl⟩
      · exact sound.identities h inside
      · exact identities b inside
    links := sound.links }

theorem Consistent.changeDeployment (sound : inv.Consistent) {change : Deployment → Deployment}
    (joints : ∀ d, (change d).key = d.key ∧ (change d).host = d.host) :
    (inv.changeDeployment key host change).Consistent where
  keysDistinct := sound.keysDistinct
  hostsDistinct := sound.hostsDistinct
  jointsDistinct := by
    have same : (inv.changeDeployment key host change).joints = inv.joints :=
      map_changeFirst (fun d => by rw [(joints d).1, (joints d).2]) _
    rw [same]
    exact sound.jointsDistinct
  joined := by
    intro d member
    rcases of_mem_changeFirst member with inside | ⟨b, inside, rfl⟩
    · exact sound.joined d inside
    · rw [(joints b).1, (joints b).2]
      exact sound.joined b inside
  identities := sound.identities
  links := sound.links

theorem Resolves.mono {names more : List String} {reference : Option String}
    (resolves : Resolves names reference) (sub : ∀ n ∈ names, n ∈ more) : Resolves more reference :=
  fun n is => sub n (resolves n is)

theorem keyNames_addKey (k : Key) :
    keyNames { inv with keys := inv.keys ++ [k] } = inv.keyNames ++ [k.name] := by
  simp [keyNames]

/-- A new key may link to keys on record only, itself among them. -/
theorem Consistent.addKey (sound : inv.Consistent) {k : Key} (free : inv.findKey? k.name = none)
    (links : Resolves (inv.keyNames ++ [k.name]) k.rotatedFrom ∧
      Resolves (inv.keyNames ++ [k.name]) k.rotatedTo) :
    Consistent { inv with keys := inv.keys ++ [k] } := by
  have names : keyNames { inv with keys := inv.keys ++ [k] } = inv.keyNames ++ [k.name] := keyNames_addKey k
  have more : ∀ n ∈ inv.keyNames, n ∈ inv.keyNames ++ [k.name] := by simp +contextual
  exact {
    keysDistinct := by
      rw [names, ← List.concat_eq_append, List.nodup_concat]
      exact ⟨findKey?_eq_none_iff.1 free, sound.keysDistinct⟩
    hostsDistinct := sound.hostsDistinct
    jointsDistinct := sound.jointsDistinct
    joined := by
      rw [names]
      exact fun d member => ⟨more _ (sound.joined d member).1, (sound.joined d member).2⟩
    identities := by
      rw [names]
      exact fun h member => (sound.identities h member).mono more
    links := by
      rw [names]
      intro b member
      rcases List.mem_append.1 member with inside | last
      · exact ⟨(sound.links b inside).1.mono more, (sound.links b inside).2.mono more⟩
      · rw [List.mem_singleton.1 last]
        exact links }

theorem dropReference_resolves {names : List String} {reference : Option String}
    (resolves : Resolves names reference) :
    ∀ n, dropReference name reference = some n → n ∈ names ∧ n ≠ name := by
  intro n is
  unfold dropReference at is
  split at is
  · cases is
  · rename_i other
    exact ⟨resolves n is, fun same => other (same ▸ is)⟩

theorem keyNames_dropKey : (inv.dropKey name).keyNames = inv.keyNames.erase name := by
  unfold keyNames dropKey
  rw [List.map_map]
  exact map_eraseP_name _ _ _

theorem Consistent.dropKey (sound : inv.Consistent) : (inv.dropKey name).Consistent := by
  have kept : ∀ n, n ∈ inv.keyNames ∧ n ≠ name → n ∈ (inv.dropKey name).keyNames := by
    rintro n ⟨member, other⟩
    rw [keyNames_dropKey, sound.keysDistinct.mem_erase_iff]
    exact ⟨other, member⟩
  have labels : (inv.dropKey name).hostLabels = inv.hostLabels := by
    simp [hostLabels, Inventory.dropKey, unlinkHost, Function.comp_def]
  exact {
    keysDistinct := by rw [keyNames_dropKey]; exact sound.keysDistinct.erase _
    hostsDistinct := by rw [labels]; exact sound.hostsDistinct
    jointsDistinct := sound.jointsDistinct.sublist (List.Sublist.map _ List.filter_sublist)
    joined := by
      rw [labels]
      intro d member
      obtain ⟨inside, other⟩ := List.mem_filter.1 member
      exact ⟨kept _ ⟨(sound.joined d inside).1, by simpa using other⟩, (sound.joined d inside).2⟩
    identities := by
      intro h member
      obtain ⟨b, inside, rfl⟩ := List.mem_map.1 member
      exact fun n is => kept n (dropReference_resolves (sound.identities b inside) n is)
    links := by
      intro k member
      obtain ⟨b, inside, rfl⟩ := List.mem_map.1 member
      have linked := sound.links b (List.mem_of_mem_eraseP inside)
      exact ⟨fun n is => kept n (dropReference_resolves linked.1 n is),
        fun n is => kept n (dropReference_resolves linked.2 n is)⟩ }

/-- A removal gives the record that was there, without links. -/
theorem removeKey_eq_ok {force : Bool} {k : Key} (removed : inv.removeKey name force = .ok (k, inv')) :
    ∃ old ∈ inv.keys, k = unlinkKey name old ∧ inv' = inv.dropKey name := by
  rw [removeKey_eq] at removed
  cases known : inv.key name with
  | error e =>
    rw [known] at removed
    cases removed
  | ok old =>
    rw [known] at removed
    dsimp only at removed
    split at removed
    · cases removed
    · obtain ⟨rfl, rfl⟩ := Prod.mk.inj (Except.ok.inj removed)
      exact ⟨old, (mem_of_key known).1, rfl, rfl⟩

theorem Consistent.removeKey (sound : inv.Consistent) {force : Bool} {k : Key}
    (removed : inv.removeKey name force = .ok (k, inv')) : inv'.Consistent := by
  obtain ⟨_, _, _, rfl⟩ := removeKey_eq_ok removed
  exact sound.dropKey

/-- Every host may go from one key to another that is on record. -/
theorem Consistent.switchHosts (sound : inv.Consistent) {change : Host → Host}
    (named : ∀ h, (change h).label = h.label)
    (identities : ∀ h ∈ inv.hosts, Resolves inv.keyNames (change h).identity) :
    Consistent { inv with hosts := inv.hosts.map change } := by
  have labels : hostLabels { inv with hosts := inv.hosts.map change } = inv.hostLabels := by
    simp [hostLabels, Function.comp_def, named]
  exact {
    keysDistinct := sound.keysDistinct
    hostsDistinct := by rw [labels]; exact sound.hostsDistinct
    jointsDistinct := sound.jointsDistinct
    joined := by rw [labels]; exact sound.joined
    identities := by
      intro h member
      obtain ⟨b, inside, rfl⟩ := List.mem_map.1 member
      exact identities b inside
    links := sound.links }

/-- A host is put on record under an alias that was free, with a key that is on record. -/
theorem insertHost_eq_ok {h : Host} (inserted : inv.insertHost h = .ok inv') :
    inv.findHost? h.label = none ∧ Resolves inv.keyNames h.identity ∧
      inv' = { inv with hosts := inv.hosts ++ [h] } := by
  rw [insertHost_eq] at inserted
  split at inserted
  · cases inserted
  · rename_i free
    split at inserted
    · cases inserted
    · rename_i identity looked
      refine ⟨free, ?_, (Except.ok.inj inserted).symm⟩
      intro i is
      have found : h.identity.mapM inv.key = some <$> inv.key i := by rw [is]; rfl
      rw [found] at looked
      cases known : inv.key i with
      | error e => rw [known] at looked; cases looked
      | ok k => exact mem_keyNames_of_key known

theorem Consistent.insertHost (sound : inv.Consistent) {h : Host}
    (inserted : inv.insertHost h = .ok inv') : inv'.Consistent := by
  obtain ⟨free, resolves, rfl⟩ := insertHost_eq_ok inserted
  have labels : hostLabels { inv with hosts := inv.hosts ++ [h] } = inv.hostLabels ++ [h.label] := by
    simp [hostLabels]
  exact {
    keysDistinct := sound.keysDistinct
    hostsDistinct := by
      rw [labels, ← List.concat_eq_append, List.nodup_concat]
      exact ⟨findHost?_eq_none_iff.1 free, sound.hostsDistinct⟩
    jointsDistinct := sound.jointsDistinct
    joined := by
      rw [labels]
      exact fun d member => ⟨(sound.joined d member).1,
        List.mem_append_left _ (sound.joined d member).2⟩
    identities := by
      intro b member
      rcases List.mem_append.1 member with inside | last
      · exact sound.identities b inside
      · rw [List.mem_singleton.1 last]
        exact resolves
    links := sound.links }

theorem removeHost_eq_ok {h : Host} (removed : inv.removeHost label = .ok (h, inv')) :
    inv' = { inv with
      hosts := inv.hosts.eraseP (·.label = label)
      deployments := inv.deployments.filter (·.host ≠ label) } := by
  rw [removeHost_eq] at removed
  split at removed
  · cases removed
  · exact (Prod.mk.inj (Except.ok.inj removed)).2.symm

theorem Consistent.removeHost (sound : inv.Consistent) {h : Host}
    (removed : inv.removeHost label = .ok (h, inv')) : inv'.Consistent := by
  rw [removeHost_eq_ok removed]
  exact {
    keysDistinct := sound.keysDistinct
    hostsDistinct := by
      rw [hostLabels, map_eraseP_name]
      exact sound.hostsDistinct.erase _
    jointsDistinct := sound.jointsDistinct.sublist (List.Sublist.map _ List.filter_sublist)
    joined := by
      intro d member
      obtain ⟨inside, other⟩ := List.mem_filter.1 member
      refine ⟨(sound.joined d inside).1, ?_⟩
      rw [hostLabels, map_eraseP_name]
      exact sound.hostsDistinct.mem_erase_iff.2 ⟨by simpa using other, (sound.joined d inside).2⟩
    identities := fun b member => sound.identities b (List.mem_of_mem_eraseP member)
    links := sound.links }

/-! ## Deployments -/

theorem deployment?_eq_none_iff :
    inv.deployment? key host = none ↔ (key, host) ∉ inv.joints := by
  simp only [deployment?, joints, Deployment.joins, List.find?_eq_none, List.mem_map, not_exists]
  exact forall_congr' fun d => by simp

/-- A deployment of a key on record on a host on record is refreshed, or comes last. -/
theorem recordDeployment_eq_ok {method : DeployMethod} {now : Instant}
    (recorded : inv.recordDeployment key host method now = .ok inv') :
    key ∈ inv.keyNames ∧ host ∈ inv.hostLabels ∧
      ((key, host) ∈ inv.joints ∧ (inv' = inv.changeDeployment key host fun d =>
          { d with deployedAt := now, method := method, verifiedAt := none }) ∨
        (key, host) ∉ inv.joints ∧
          inv' = { inv with deployments := inv.deployments ++ [⟨key, host, now, method, none⟩] }) := by
  rw [recordDeployment_eq] at recorded
  split at recorded
  · cases recorded
  · cases recorded
  · rename_i k h knownKey knownHost
    refine ⟨mem_keyNames_of_key knownKey, mem_hostLabels_of_host knownHost, ?_⟩
    split at recorded
    · rename_i d known
      have there : (key, host) ∈ inv.joints := by
        by_contra missing
        rw [deployment?_eq_none_iff.mpr missing] at known
        cases known
      exact .inl ⟨there, (Except.ok.inj recorded).symm⟩
    · rename_i fresh
      exact .inr ⟨deployment?_eq_none_iff.mp fresh, (Except.ok.inj recorded).symm⟩

theorem Consistent.recordDeployment (sound : inv.Consistent) {method : DeployMethod} {now : Instant}
    (recorded : inv.recordDeployment key host method now = .ok inv') : inv'.Consistent := by
  obtain ⟨knownKey, knownHost, ⟨_, rfl⟩ | ⟨fresh, rfl⟩⟩ := recordDeployment_eq_ok recorded
  · exact sound.changeDeployment fun d => ⟨rfl, rfl⟩
  · exact {
      keysDistinct := sound.keysDistinct
      hostsDistinct := sound.hostsDistinct
      jointsDistinct := by
        simp only [joints, List.map_append, List.map_singleton]
        rw [← List.concat_eq_append, List.nodup_concat]
        exact ⟨fresh, sound.jointsDistinct⟩
      joined := by
        intro d member
        rcases List.mem_append.1 member with inside | last
        · exact sound.joined d inside
        · rw [List.mem_singleton.1 last]
          exact ⟨knownKey, knownHost⟩
      identities := sound.identities
      links := sound.links }

/-- Nothing but the deployments is changed when one is recorded. -/
theorem of_recordDeployment {method : DeployMethod} {now : Instant}
    (recorded : inv.recordDeployment key host method now = .ok inv') :
    ∃ deployments, inv' = { inv with deployments := deployments } := by
  obtain ⟨_, _, ⟨_, rfl⟩ | ⟨_, rfl⟩⟩ := recordDeployment_eq_ok recorded
  · exact ⟨_, rfl⟩
  · exact ⟨_, rfl⟩

/-- The deployments that there were stay on record when one is recorded. -/
theorem joints_of_recordDeployment {method : DeployMethod} {now : Instant}
    (recorded : inv.recordDeployment key host method now = .ok inv') :
    (key, host) ∈ inv'.joints ∧ ∀ joint ∈ inv.joints, joint ∈ inv'.joints := by
  obtain ⟨_, _, ⟨there, rfl⟩ | ⟨_, rfl⟩⟩ := recordDeployment_eq_ok recorded
  · have same : (inv.changeDeployment key host fun d =>
        { d with deployedAt := now, method := method, verifiedAt := none }).joints = inv.joints := by
      refine map_changeFirst ?_ _
      intro d
      rfl
    rw [same]
    exact ⟨there, fun joint inside => inside⟩
  · simp only [joints, List.map_append, List.map_singleton]
    exact ⟨List.mem_append_right _ (List.mem_singleton.mpr rfl),
      fun joint inside => List.mem_append_left _ inside⟩

theorem removeDeployment_eq_ok {d : Deployment}
    (removed : inv.removeDeployment key host = .ok (d, inv')) :
    inv' = { inv with deployments := inv.deployments.eraseP (·.joins key host) } := by
  rw [removeDeployment_eq] at removed
  split at removed
  · cases removed
  · exact (Prod.mk.inj (Except.ok.inj removed)).2.symm

theorem Consistent.removeDeployment (sound : inv.Consistent) {d : Deployment}
    (removed : inv.removeDeployment key host = .ok (d, inv')) : inv'.Consistent := by
  rw [removeDeployment_eq_ok removed]
  exact {
    keysDistinct := sound.keysDistinct
    hostsDistinct := sound.hostsDistinct
    jointsDistinct := sound.jointsDistinct.sublist (List.Sublist.map _ List.eraseP_sublist)
    joined := fun b member => sound.joined b (List.mem_of_mem_eraseP member)
    identities := sound.identities
    links := sound.links }

/-- All deployments but the one that is removed stay on record. -/
theorem joints_of_removeDeployment {d : Deployment}
    (removed : inv.removeDeployment key host = .ok (d, inv')) {joint : String × String}
    (inside : joint ∈ inv.joints) (other : joint ≠ (key, host)) : joint ∈ inv'.joints := by
  rw [removeDeployment_eq_ok removed]
  obtain ⟨b, member, rfl⟩ := List.mem_map.mp inside
  have apart : ¬ b.joins key host = true := by
    intro joins
    refine other ?_
    simpa [Deployment.joins, Prod.ext_iff] using joins
  have stays := (List.mem_eraseP_of_neg (p := (·.joins key host)) apart).mpr member
  exact List.mem_map_of_mem stays

theorem markVerified_eq_ok {now : Instant} (marked : inv.markVerified key host now = .ok inv') :
    inv' = inv.changeDeployment key host fun d => { d with verifiedAt := some now } := by
  rw [markVerified_eq] at marked
  split at marked
  · cases marked
  · exact (Except.ok.inj marked).symm

theorem Consistent.markVerified (sound : inv.Consistent) {now : Instant}
    (marked : inv.markVerified key host now = .ok inv') : inv'.Consistent := by
  rw [markVerified_eq_ok marked]
  exact sound.changeDeployment fun d => ⟨rfl, rfl⟩

end Keyring.Inventory

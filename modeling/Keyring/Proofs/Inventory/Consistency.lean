import Keyring.Inventory.Check
import Keyring.Inventory.Edit
import Mathlib.Data.List.Induction
import Mathlib.Data.List.Nodup

/-!
# Consistent inventories

An inventory is consistent when names, aliases and deployments are distinct and
every reference resolves. `check` finds nothing exactly then
(`check_eq_nil_iff`), and each edit keeps it so.
-/

namespace Keyring.Inventory

open Time

def keyNames (inv : Inventory) : List String := inv.keys.map (·.name)

def hostLabels (inv : Inventory) : List String := inv.hosts.map (·.label)

/-- The keys and hosts that deployments join. -/
def joints (inv : Inventory) : List (String × String) := inv.deployments.map fun d => (d.key, d.host)

/-- An optional reference leads to a name. -/
def Resolves (names : List String) (reference : Option String) : Prop :=
  ∀ name, reference = some name → name ∈ names

structure Consistent (inv : Inventory) : Prop where
  keysDistinct : inv.keyNames.Nodup
  hostsDistinct : inv.hostLabels.Nodup
  jointsDistinct : inv.joints.Nodup
  joined : ∀ d ∈ inv.deployments, d.key ∈ inv.keyNames ∧ d.host ∈ inv.hostLabels
  identities : ∀ h ∈ inv.hosts, Resolves inv.keyNames h.identity
  links : ∀ k ∈ inv.keys,
    Resolves inv.keyNames k.rotatedFrom ∧ Resolves inv.keyNames k.rotatedTo

theorem findKey?_eq_none_iff {inv : Inventory} {name : String} :
    inv.findKey? name = none ↔ name ∉ inv.keyNames := by
  simp [findKey?, keyNames]

theorem findHost?_eq_none_iff {inv : Inventory} {label : String} :
    inv.findHost? label = none ↔ label ∉ inv.hostLabels := by
  simp [findHost?, hostLabels]

theorem mem_of_key {inv : Inventory} {name : String} {k : Key} (h : inv.key name = .ok k) :
    k ∈ inv.keys ∧ k.name = name := by
  unfold key at h
  split at h
  · rename_i found
    cases h
    exact ⟨List.mem_of_find?_eq_some found, by simpa using List.find?_some found⟩
  · cases h

theorem mem_keyNames_of_key {inv : Inventory} {name : String} {k : Key} (h : inv.key name = .ok k) :
    name ∈ inv.keyNames := by
  obtain ⟨member, named⟩ := mem_of_key h
  exact List.mem_map.mpr ⟨k, member, named⟩

theorem mem_hostLabels_of_host {inv : Inventory} {label : String} {h : Host}
    (found : inv.host label = .ok h) : label ∈ inv.hostLabels := by
  unfold host at found
  split at found
  · rename_i known
    exact not_not.1 fun missing => by simp [findHost?_eq_none_iff.2 missing] at known
  · cases found

theorem exists_key_of_mem {inv : Inventory} {name : String} (known : name ∈ inv.keyNames) :
    ∃ k, inv.key name = .ok k := by
  unfold key
  cases found : inv.findKey? name with
  | none => exact absurd known (findKey?_eq_none_iff.mp found)
  | some k => exact ⟨k, rfl⟩

theorem exists_host_of_mem {inv : Inventory} {label : String} (known : label ∈ inv.hostLabels) :
    ∃ h, inv.host label = .ok h := by
  unfold host
  cases found : inv.findHost? label with
  | none => exact absurd known (findHost?_eq_none_iff.mp found)
  | some h => exact ⟨h, rfl⟩

/-- Nothing is said of a list when nothing is said of any item and the items before it. -/
theorem gather_eq_nil_iff {α : Type} (say : List α → α → List String) (earlier items : List α) :
    gather say earlier items = [] ↔
      ∀ before a after, items = before ++ a :: after → say (earlier ++ before) a = [] := by
  induction items generalizing earlier with
  | nil => simp [gather]
  | cons b rest ih =>
    rw [gather, List.append_eq_nil_iff, ih]
    constructor
    · rintro ⟨first, others⟩ before a after split
      cases before with
      | nil =>
        cases split
        simpa using first
      | cons c before =>
        cases split
        simpa using others before a after rfl
    · intro all
      refine ⟨by simpa using all [] b rest rfl, fun before a after split => ?_⟩
      simpa [split] using all (b :: before) a after (by rw [split]; rfl)

/-- Where no item repeats an earlier one under a name, the names are distinct. -/
theorem nodup_map_iff {α β : Type} (name : α → β) (items : List α) :
    (items.map name).Nodup ↔
      ∀ before a after, items = before ++ a :: after → ∀ b ∈ before, name b ≠ name a := by
  constructor
  · rintro distinct before a after rfl b inside same
    rw [List.map_append, List.nodup_append] at distinct
    exact distinct.2.2 (name b) (List.mem_map_of_mem inside) (name a) (by simp) same
  · intro apart
    induction items using List.reverseRecOn with
    | nil => simp
    | append_singleton init a ih =>
      rw [List.map_append, List.map_singleton, ← List.concat_eq_append, List.nodup_concat]
      refine ⟨?_, ih fun before b after split => ?_⟩
      · rintro member
        obtain ⟨b, inside, same⟩ := List.mem_map.1 member
        exact apart init a [] rfl b inside same
      · exact apart before b (after ++ [a]) (by rw [split]; simp)

theorem linkProblems_eq_nil_iff {inv : Inventory} {k : Key} {field : String} {link : Option String} :
    inv.linkProblems k field link = [] ↔ Resolves inv.keyNames link := by
  cases link with
  | none => simp [linkProblems, Resolves]
  | some target => simp [linkProblems, Resolves, findKey?_eq_none_iff]

theorem keyProblems_eq_nil_iff {inv : Inventory} {earlier : List Key} {k : Key} :
    inv.keyProblems earlier k = [] ↔ (∀ b ∈ earlier, b.name ≠ k.name) ∧
      Resolves inv.keyNames k.rotatedFrom ∧ Resolves inv.keyNames k.rotatedTo := by
  simp [keyProblems, linkProblems_eq_nil_iff]

theorem hostProblems_eq_nil_iff {inv : Inventory} {earlier : List Host} {h : Host} :
    inv.hostProblems earlier h = [] ↔
      (∀ b ∈ earlier, b.label ≠ h.label) ∧ Resolves inv.keyNames h.identity := by
  rw [hostProblems, List.append_eq_nil_iff]
  refine and_congr (by simp) ?_
  cases h.identity with
  | none => simp [Resolves]
  | some identity => simp [Resolves, findKey?_eq_none_iff]

theorem deploymentProblems_eq_nil_iff {inv : Inventory} {earlier : List Deployment}
    {d : Deployment} :
    inv.deploymentProblems earlier d = [] ↔ (d.key ∈ inv.keyNames ∧ d.host ∈ inv.hostLabels) ∧
      ∀ b ∈ earlier, (b.key, b.host) ≠ (d.key, d.host) := by
  simp [deploymentProblems, findKey?_eq_none_iff, findHost?_eq_none_iff, Deployment.joins,
    and_assoc]

/-- What is said of every item is said of every member. -/
theorem forall_split_iff {α : Type} {items : List α} {P : α → Prop} :
    (∀ before a after, items = before ++ a :: after → P a) ↔ ∀ a ∈ items, P a := by
  constructor
  · intro all a member
    obtain ⟨before, after, split⟩ := List.append_of_mem member
    exact all before a after split
  · rintro all before a after rfl
    exact all a (by simp)

theorem check_eq_nil_iff {inv : Inventory} : inv.check = [] ↔ inv.Consistent := by
  rw [check, List.append_eq_nil_iff, List.append_eq_nil_iff]
  simp only [gather_eq_nil_iff, List.nil_append, keyProblems_eq_nil_iff, hostProblems_eq_nil_iff,
    deploymentProblems_eq_nil_iff]
  constructor
  · rintro ⟨⟨keys, hosts⟩, deployments⟩
    exact {
      keysDistinct := (nodup_map_iff _ _).2 fun _ _ _ split => (keys _ _ _ split).1
      hostsDistinct := (nodup_map_iff _ _).2 fun _ _ _ split => (hosts _ _ _ split).1
      jointsDistinct := (nodup_map_iff _ _).2 fun _ _ _ split => (deployments _ _ _ split).2
      joined := forall_split_iff.1 fun _ _ _ split => (deployments _ _ _ split).1
      identities := forall_split_iff.1 fun _ _ _ split => (hosts _ _ _ split).2
      links := forall_split_iff.1 fun _ _ _ split => (keys _ _ _ split).2 }
  · intro sound
    refine ⟨⟨fun before a after split => ⟨?_, ?_⟩, fun before a after split => ⟨?_, ?_⟩⟩,
      fun before a after split => ⟨?_, ?_⟩⟩
    · exact (nodup_map_iff _ _).1 sound.keysDistinct _ _ _ split
    · exact forall_split_iff.2 sound.links _ _ _ split
    · exact (nodup_map_iff _ _).1 sound.hostsDistinct _ _ _ split
    · exact forall_split_iff.2 sound.identities _ _ _ split
    · exact forall_split_iff.2 sound.joined _ _ _ split
    · exact (nodup_map_iff _ _).1 sound.jointsDistinct _ _ _ split

end Keyring.Inventory

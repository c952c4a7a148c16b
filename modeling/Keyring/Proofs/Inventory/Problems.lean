import Keyring.Proofs.Inventory.Consistency
import Mathlib.Data.List.Count

/-!
# What `check` tells

`check` is silent about consistent inventories only (`check_silent_iff`), and
what it says otherwise is true and complete: each text stands for one way in
which the inventory is broken, and each such way is told.
-/

namespace Keyring.Inventory

/-- A key's rotation links, by the fields that hold them. -/
def linksOf (k : Key) : List (String × Option String) :=
  [("rotated_from", k.rotatedFrom), ("rotated_to", k.rotatedTo)]

/-- What is wrong with an inventory, by the text that tells it. -/
inductive Problem (inv : Inventory) : String → Prop
  | sameName {name : String} (twice : 1 < inv.keyNames.count name) :
      Problem inv s!"duplicate key name '{name}'"
  | strayLink {k : Key} {field name : String} (recorded : k ∈ inv.keys)
      (link : (field, some name) ∈ linksOf k) (unknown : name ∉ inv.keyNames) :
      Problem inv s!"key '{k.name}' has {field} '{name}' which is not in the inventory"
  | sameAlias {label : String} (twice : 1 < inv.hostLabels.count label) :
      Problem inv s!"duplicate host alias '{label}'"
  | strayIdentity {h : Host} {name : String} (recorded : h ∈ inv.hosts)
      (link : h.identity = some name) (unknown : name ∉ inv.keyNames) :
      Problem inv s!"host '{h.label}' uses identity '{name}' which is not in the inventory"
  | strayKey {d : Deployment} (recorded : d ∈ inv.deployments) (unknown : d.key ∉ inv.keyNames) :
      Problem inv s!"deployment of unknown key '{d.key}' to '{d.host}'"
  | strayHost {d : Deployment} (recorded : d ∈ inv.deployments)
      (unknown : d.host ∉ inv.hostLabels) :
      Problem inv s!"deployment of '{d.key}' to unknown host '{d.host}'"
  | sameJoint {key host : String} (twice : 1 < inv.joints.count (key, host)) :
      Problem inv s!"duplicate deployment of '{key}' to '{host}'"

/-- What is said of a list is said of an item of it, given the items before that item. -/
theorem mem_gather_iff {α : Type} {say : List α → α → List String} {earlier items : List α}
    {p : String} :
    p ∈ gather say earlier items ↔
      ∃ before a after, items = before ++ a :: after ∧ p ∈ say (earlier ++ before) a := by
  induction items generalizing earlier with
  | nil => simp [gather]
  | cons b rest ih =>
    rw [gather, List.mem_append, ih]
    constructor
    · rintro (first | ⟨before, a, after, rfl, told⟩)
      · exact ⟨[], b, rest, rfl, by simpa using first⟩
      · exact ⟨b :: before, a, after, rfl, by simpa using told⟩
    · rintro ⟨before, a, after, split, told⟩
      cases before with
      | nil =>
        cases split
        exact .inl (by simpa using told)
      | cons c before =>
        cases split
        exact .inr ⟨before, a, after, rfl, by simpa using told⟩

/-- A name is given twice where an item repeats an earlier one under it. -/
theorem one_lt_count_map_iff {α β : Type} [BEq β] [LawfulBEq β] {name : α → β} {items : List α} {n : β} :
    1 < (items.map name).count n ↔
      ∃ before a after, items = before ++ a :: after ∧ (∃ b ∈ before, name b = n) ∧ name a = n := by
  constructor
  · intro twice
    have pair : [n, n].Sublist (items.map name) := List.replicate_sublist_iff.2 twice
    obtain ⟨kept, inside, named⟩ := List.sublist_map_iff.1 pair
    obtain ⟨b, rest, rfl, isB, named⟩ := List.map_eq_cons_iff.1 named.symm
    obtain ⟨a, rest, rfl, isA, -⟩ := List.map_eq_cons_iff.1 named
    obtain ⟨front, back, rfl, first, second⟩ := List.cons_sublist_iff.1 inside
    obtain ⟨between, after, rfl⟩ := List.append_of_mem (second.subset (List.mem_cons_self ..))
    exact ⟨front ++ between, a, after, by simp, ⟨b, by simp [first], isB⟩, isA⟩
  · rintro ⟨before, a, after, rfl, ⟨b, inside, same⟩, rfl⟩
    have repeated : 0 < (before.map name).count (name a) :=
      List.count_pos_iff.2 (List.mem_map.2 ⟨b, inside, same⟩)
    simp only [List.map_append, List.map_cons, List.count_append, List.count_cons_self]
    omega

variable {inv : Inventory} {p : String}

theorem isSome_findKey? {name : String} :
    (inv.findKey? name).isSome = true ↔ name ∈ inv.keyNames := by
  rw [Option.isSome_iff_ne_none, ne_eq, findKey?_eq_none_iff, not_not]

theorem isSome_findHost? {label : String} :
    (inv.findHost? label).isSome = true ↔ label ∈ inv.hostLabels := by
  rw [Option.isSome_iff_ne_none, ne_eq, findHost?_eq_none_iff, not_not]

theorem mem_linkProblems_iff {k : Key} {field : String} {link : Option String} :
    p ∈ inv.linkProblems k field link ↔ ∃ name, link = some name ∧ name ∉ inv.keyNames ∧
      p = s!"key '{k.name}' has {field} '{name}' which is not in the inventory" := by
  cases link with
  | none => simp [linkProblems]
  | some name => by_cases known : name ∈ inv.keyNames <;> simp [linkProblems, isSome_findKey?, known]

theorem mem_keyProblems_iff {earlier : List Key} {k : Key} :
    p ∈ inv.keyProblems earlier k ↔
      ((∃ b ∈ earlier, b.name = k.name) ∧ p = s!"duplicate key name '{k.name}'") ∨
      ∃ field name, (field, some name) ∈ linksOf k ∧ name ∉ inv.keyNames ∧
        p = s!"key '{k.name}' has {field} '{name}' which is not in the inventory" := by
  rw [keyProblems, List.append_assoc, List.mem_append, List.mem_append, mem_linkProblems_iff,
    mem_linkProblems_iff]
  refine or_congr (by simp) ⟨?_, ?_⟩
  · rintro (⟨name, link, unknown, told⟩ | ⟨name, link, unknown, told⟩)
    · exact ⟨_, name, by simp [linksOf, link], unknown, told⟩
    · exact ⟨_, name, by simp [linksOf, link], unknown, told⟩
  · rintro ⟨field, name, link, unknown, told⟩
    simp only [linksOf, List.mem_cons, Prod.mk.injEq, List.not_mem_nil, or_false] at link
    rcases link with ⟨rfl, link⟩ | ⟨rfl, link⟩
    · exact .inl ⟨name, link.symm, unknown, told⟩
    · exact .inr ⟨name, link.symm, unknown, told⟩

theorem mem_hostProblems_iff {earlier : List Host} {h : Host} :
    p ∈ inv.hostProblems earlier h ↔
      ((∃ b ∈ earlier, b.label = h.label) ∧ p = s!"duplicate host alias '{h.label}'") ∨
      ∃ name, h.identity = some name ∧ name ∉ inv.keyNames ∧
        p = s!"host '{h.label}' uses identity '{name}' which is not in the inventory" := by
  rw [hostProblems, List.mem_append]
  refine or_congr (by simp) ?_
  cases h.identity with
  | none => simp
  | some name => by_cases known : name ∈ inv.keyNames <;> simp [isSome_findKey?, known]

theorem mem_deploymentProblems_iff {earlier : List Deployment} {d : Deployment} :
    p ∈ inv.deploymentProblems earlier d ↔
      (d.key ∉ inv.keyNames ∧ p = s!"deployment of unknown key '{d.key}' to '{d.host}'") ∨
      (d.host ∉ inv.hostLabels ∧ p = s!"deployment of '{d.key}' to unknown host '{d.host}'") ∨
      ((∃ b ∈ earlier, (b.key, b.host) = (d.key, d.host)) ∧
        p = s!"duplicate deployment of '{d.key}' to '{d.host}'") := by
  by_cases knownKey : d.key ∈ inv.keyNames <;> by_cases knownHost : d.host ∈ inv.hostLabels <;>
    simp [deploymentProblems, isSome_findKey?, isSome_findHost?, knownKey, knownHost,
      Deployment.joins]

/-- Each text that `check` gives tells a problem, and each problem is told. -/
theorem mem_check_iff : p ∈ inv.check ↔ inv.Problem p := by
  simp only [check, List.mem_append, mem_gather_iff, List.nil_append, mem_keyProblems_iff,
    mem_hostProblems_iff, mem_deploymentProblems_iff]
  constructor
  · rintro ((⟨before, k, after, split, told⟩ | ⟨before, h, after, split, told⟩) |
      ⟨before, d, after, split, told⟩)
    · have recorded : k ∈ inv.keys := by simp [split]
      rcases told with ⟨same, rfl⟩ | ⟨field, name, link, unknown, rfl⟩
      · exact .sameName (one_lt_count_map_iff.2 ⟨before, k, after, split, same, rfl⟩)
      · exact .strayLink recorded link unknown
    · have recorded : h ∈ inv.hosts := by simp [split]
      rcases told with ⟨same, rfl⟩ | ⟨name, link, unknown, rfl⟩
      · exact .sameAlias (one_lt_count_map_iff.2 ⟨before, h, after, split, same, rfl⟩)
      · exact .strayIdentity recorded link unknown
    · have recorded : d ∈ inv.deployments := by simp [split]
      rcases told with ⟨unknown, rfl⟩ | ⟨unknown, rfl⟩ | ⟨same, rfl⟩
      · exact .strayKey recorded unknown
      · exact .strayHost recorded unknown
      · exact .sameJoint (one_lt_count_map_iff.2 ⟨before, d, after, split, same, rfl⟩)
  · intro problem
    cases problem with
    | sameName twice =>
      obtain ⟨before, k, after, split, same, rfl⟩ := one_lt_count_map_iff.1 twice
      exact .inl (.inl ⟨before, k, after, split, .inl ⟨same, rfl⟩⟩)
    | @strayLink k field name recorded link unknown =>
      obtain ⟨before, after, split⟩ := List.append_of_mem recorded
      exact .inl (.inl ⟨before, k, after, split, .inr ⟨field, name, link, unknown, rfl⟩⟩)
    | sameAlias twice =>
      obtain ⟨before, h, after, split, same, rfl⟩ := one_lt_count_map_iff.1 twice
      exact .inl (.inr ⟨before, h, after, split, .inl ⟨same, rfl⟩⟩)
    | @strayIdentity h name recorded link unknown =>
      obtain ⟨before, after, split⟩ := List.append_of_mem recorded
      exact .inl (.inr ⟨before, h, after, split, .inr ⟨name, link, unknown, rfl⟩⟩)
    | @strayKey d recorded unknown =>
      obtain ⟨before, after, split⟩ := List.append_of_mem recorded
      exact .inr ⟨before, d, after, split, .inl ⟨unknown, rfl⟩⟩
    | @strayHost d recorded unknown =>
      obtain ⟨before, after, split⟩ := List.append_of_mem recorded
      exact .inr ⟨before, d, after, split, .inr (.inl ⟨unknown, rfl⟩)⟩
    | sameJoint twice =>
      obtain ⟨before, d, after, split, same, named⟩ := one_lt_count_map_iff.1 twice
      cases named
      exact .inr ⟨before, d, after, split, .inr (.inr ⟨same, rfl⟩)⟩

/-- No problem is told of an inventory exactly when its names, aliases and deployments are distinct
and what its records refer to is on record; and what is told is what is wrong. -/
theorem check_silent_iff (inv : Inventory) :
    (inv.check = [] ↔
      (inv.keys.map (·.name)).Nodup ∧
      (inv.hosts.map (·.label)).Nodup ∧
      (inv.deployments.map fun d => (d.key, d.host)).Nodup ∧
      (∀ d ∈ inv.deployments,
        (∃ k ∈ inv.keys, k.name = d.key) ∧ ∃ h ∈ inv.hosts, h.label = d.host) ∧
      (∀ h ∈ inv.hosts, ∀ name, h.identity = some name → ∃ k ∈ inv.keys, k.name = name) ∧
      ∀ k ∈ inv.keys, ∀ name, k.rotatedFrom = some name ∨ k.rotatedTo = some name →
        ∃ other ∈ inv.keys, other.name = name) ∧
    ∀ p, p ∈ inv.check ↔ inv.Problem p := by
  refine ⟨?_, fun p => mem_check_iff⟩
  have onRecord {name : String} : (∃ k ∈ inv.keys, k.name = name) ↔ name ∈ inv.keyNames := by
    simp [keyNames]
  have onList {label : String} : (∃ h ∈ inv.hosts, h.label = label) ↔ label ∈ inv.hostLabels := by
    simp [hostLabels]
  rw [check_eq_nil_iff]
  simp only [onRecord, onList]
  constructor
  · intro sound
    exact ⟨sound.keysDistinct, sound.hostsDistinct, sound.jointsDistinct, sound.joined,
      sound.identities, fun k recorded name link => link.elim ((sound.links k recorded).1 name)
        ((sound.links k recorded).2 name)⟩
  · rintro ⟨keys, hosts, joints, joined, identities, links⟩
    exact ⟨keys, hosts, joints, joined, identities, fun k recorded =>
      ⟨fun name link => links k recorded name (.inl link),
        fun name link => links k recorded name (.inr link)⟩⟩

end Keyring.Inventory

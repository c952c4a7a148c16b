import Keyring.Proofs.Inventory.KeySteps
import Keyring.Proofs.Lifecycle.Safety

/-!
# Keys that follow one another

A rotation links two keys, and a removal takes the links to a key with it. In every run
the links form chains (`rotation_chains`): each stands on both keys, leads from a key
that is in use no more, and is the only one to its end. A chain ends, because a link
leads to a key that came on record later: the order of the records is kept by every
step (`Linked.forward`).
-/

namespace Keyring

open Inventory Lifecycle

/-- How the keys of a run are linked, in the order in which they came on record. -/
structure Linked (keys : List Key) : Prop where
  both : ∀ x ∈ keys, ∀ y ∈ keys, x.rotatedTo = some y.name ↔ y.rotatedFrom = some x.name
  retired : ∀ x ∈ keys, x.rotatedTo ≠ none → x.status ≠ .active
  apart : ∀ x ∈ keys, x.rotatedTo ≠ some x.name
  forward : keys.Pairwise fun earlier later => later.rotatedTo ≠ some earlier.name

theorem linked_nil : Linked [] where
  both x known := by cases known
  retired x known := by cases known
  apart x known := by cases known
  forward := .nil

variable {inv inv' : Inventory} {keys : List Key} {name : String}

/-- A change that leaves names and links alone and puts no key back in use. -/
theorem Linked.map (linked : Linked keys) {change : Key → Key}
    (links : ∀ k, (change k).name = k.name ∧ (change k).rotatedFrom = k.rotatedFrom ∧
      (change k).rotatedTo = k.rotatedTo)
    (status : ∀ k, (change k).status = .active → k.status = .active) : Linked (keys.map change) where
  both x xIn y yIn := by
    obtain ⟨x, xKnown, rfl⟩ := List.mem_map.mp xIn
    obtain ⟨y, yKnown, rfl⟩ := List.mem_map.mp yIn
    rw [(links x).1, (links x).2.2, (links y).1, (links y).2.1]
    exact linked.both x xKnown y yKnown
  retired x xIn := by
    obtain ⟨x, known, rfl⟩ := List.mem_map.mp xIn
    intro follows active
    rw [(links x).2.2] at follows
    exact linked.retired x known follows (status x active)
  apart x xIn := by
    obtain ⟨x, known, rfl⟩ := List.mem_map.mp xIn
    rw [(links x).1, (links x).2.2]
    exact linked.apart x known
  forward := by
    refine List.pairwise_map.mpr (linked.forward.imp fun {a b} ahead => ?_)
    rw [(links a).1, (links b).2.2]
    exact ahead

theorem Linked.changeKey (linked : Linked inv.keys) (distinct : inv.keyNames.Nodup)
    {change : Key → Key}
    (links : ∀ k, (change k).name = k.name ∧ (change k).rotatedFrom = k.rotatedFrom ∧
      (change k).rotatedTo = k.rotatedTo)
    (status : ∀ k, (change k).status = .active → k.status = .active) :
    Linked (inv.changeKey name change).keys := by
  rw [keys_changeKey distinct]
  refine linked.map (fun k => ?_) fun k => ?_
  · split
    · exact links k
    · exact ⟨rfl, rfl, rfl⟩
  · split
    · exact status k
    · exact id

/-! ## Steps -/

/-- What no key has a link to, since it is not on record. -/
theorem Inventory.Consistent.unlinked (sound : inv.Consistent) (free : name ∉ inv.keyNames) {k : Key}
    (known : k ∈ inv.keys) : k.rotatedTo ≠ some name ∧ k.rotatedFrom ≠ some name :=
  ⟨fun is => free ((sound.links k known).2 name is), fun is => free ((sound.links k known).1 name is)⟩

/-- A key may come last that no key follows, if the key that it follows is linked to it. -/
theorem Linked.append (linked : Linked keys) {k : Key} (last : k.rotatedTo = none)
    (leads : ∀ x ∈ keys, x.rotatedTo = some k.name ↔ k.rotatedFrom = some x.name)
    (unfollowed : ∀ x ∈ keys, x.rotatedFrom ≠ some k.name) (apart : k.rotatedFrom ≠ some k.name) :
    Linked (keys ++ [k]) := by
  constructor
  · intro x xIn y yIn
    rcases List.mem_append.mp xIn with xOld | xNew
    · rcases List.mem_append.mp yIn with yOld | yNew
      · exact linked.both x xOld y yOld
      · rw [List.mem_singleton.mp yNew]
        exact leads x xOld
    · rw [List.mem_singleton.mp xNew, last]
      refine ⟨nofun, fun back => ?_⟩
      rcases List.mem_append.mp yIn with yOld | yNew
      · exact absurd back (unfollowed y yOld)
      · rw [List.mem_singleton.mp yNew] at back
        exact absurd back apart
  · intro x xIn
    rcases List.mem_append.mp xIn with old | new
    · exact linked.retired x old
    · rw [List.mem_singleton.mp new]
      exact fun follows => absurd last follows
  · intro x xIn
    rcases List.mem_append.mp xIn with old | new
    · exact linked.apart x old
    · rw [List.mem_singleton.mp new, last]
      exact nofun
  · refine List.pairwise_append.mpr ⟨linked.forward, List.pairwise_singleton _ _, fun a _ b new => ?_⟩
    rw [List.mem_singleton.mp new, last]
    exact nofun

/-- A key that had no follower may be marked as followed by a name that no key has yet. -/
theorem Linked.mark (linked : Linked keys) {old new : String} (free : ∀ k ∈ keys, new ≠ k.name)
    (ends : ∀ k ∈ keys, k.name = old → k.rotatedTo = none) :
    Linked (keys.map (markFollowed old new)) := by
  constructor
  · intro x xIn y yIn
    obtain ⟨x, xKnown, rfl⟩ := List.mem_map.mp xIn
    obtain ⟨y, yKnown, rfl⟩ := List.mem_map.mp yIn
    rw [name_markFollowed, name_markFollowed, rotatedFrom_markFollowed, ← linked.both x xKnown y yKnown]
    by_cases same : x.name = old
    · rw [markFollowed_of_eq same, ends x xKnown same]
      exact ⟨fun leads => absurd (Option.some.inj leads) (free y yKnown), nofun⟩
    · rw [markFollowed_of_ne same]
  · intro x xIn
    obtain ⟨x, known, rfl⟩ := List.mem_map.mp xIn
    by_cases same : x.name = old
    · rw [markFollowed_of_eq same]
      exact fun _ => nofun
    · rw [markFollowed_of_ne same]
      exact linked.retired x known
  · intro x xIn
    obtain ⟨x, known, rfl⟩ := List.mem_map.mp xIn
    by_cases same : x.name = old
    · rw [markFollowed_of_eq same]
      exact fun leads => free x known (Option.some.inj leads)
    · rw [markFollowed_of_ne same]
      exact linked.apart x known
  · refine List.pairwise_map.mpr (linked.forward.imp_of_mem fun {a b} aKnown _ ahead => ?_)
    rw [name_markFollowed]
    by_cases same : b.name = old
    · rw [markFollowed_of_eq same]
      exact fun leads => free a aKnown (Option.some.inj leads)
    · rw [markFollowed_of_ne same]
      exact ahead

/-- A new key has no links, and there are none to its name yet. -/
theorem Linked.enters (linked : Linked inv.keys) (sound : inv.Consistent) {k : Key}
    (entered : Enters inv name k inv') : Linked inv'.keys := by
  obtain ⟨_, noFrom, noTo⟩ := entered.fresh
  have free : k.name ∉ inv.keyNames := entered.not_mem_keyNames
  have keys : inv'.keys = inv.keys ++ [k] := by rw [entered.added]
  rw [keys]
  refine linked.append noTo (fun x known => ?_) (fun x known => (sound.unlinked free known).2) ?_
  · rw [noFrom]
    exact ⟨fun leads => absurd leads (sound.unlinked free known).1, nofun⟩
  · rw [noFrom]
    exact nofun

/-- The old key had no follower while it was in use. It is linked to the new key, which comes last. -/
theorem Linked.succeeds (linked : Linked inv.keys) (sound : inv.Consistent) {o : RotationOutcome}
    (succeeded : Succeeds inv o keys) : Linked keys := by
  obtain ⟨⟨old, oldKnown, oldName, active⟩, free, ⟨newFrom, newTo⟩, rfl⟩ := succeeded
  have oldTo : old.rotatedTo = none :=
    Classical.byContradiction fun follows => linked.retired old oldKnown follows active
  have other : ∀ k ∈ inv.keys, o.new.name ≠ k.name := fun k known same =>
    free (same ▸ List.mem_map_of_mem known)
  have marked : Linked (inv.keys.map (markFollowed o.old o.new.name)) := by
    refine linked.mark other fun k known same => ?_
    rw [eq_of_name_eq sound.keysDistinct known oldKnown (same.trans oldName.symm)]
    exact oldTo
  refine marked.append newTo (fun x xIn => ?_) (fun x xIn => ?_) ?_
  · obtain ⟨x, known, rfl⟩ := List.mem_map.mp xIn
    rw [name_markFollowed, newFrom]
    by_cases same : x.name = o.old
    · rw [markFollowed_of_eq same, same]
      exact ⟨fun _ => rfl, fun _ => rfl⟩
    · rw [markFollowed_of_ne same]
      exact ⟨fun leads => absurd leads (sound.unlinked free known).1,
        fun back => absurd (Option.some.inj back).symm same⟩
  · obtain ⟨x, known, rfl⟩ := List.mem_map.mp xIn
    rw [rotatedFrom_markFollowed]
    exact (sound.unlinked free known).2
  · rw [newFrom]
    exact fun back => other old oldKnown ((Option.some.inj back).symm.trans oldName.symm)

theorem dropReference_eq_some_iff {reference : Option String} {n : String} (other : n ≠ name) :
    dropReference name reference = some n ↔ reference = some n := by
  unfold dropReference
  by_cases is : reference = some name
  · simp [is, Ne.symm other]
  · simp [is]

/-- With a key all links to it go, and those between the others stay. -/
theorem Linked.dropKey (linked : Linked inv.keys) (distinct : inv.keyNames.Nodup) :
    Linked (inv.dropKey name).keys := by
  constructor
  · intro x xIn y yIn
    obtain ⟨x, xKnown, xOther, rfl⟩ := mem_keys_dropKey distinct xIn
    obtain ⟨y, yKnown, yOther, rfl⟩ := mem_keys_dropKey distinct yIn
    show dropReference name x.rotatedTo = some y.name ↔ dropReference name y.rotatedFrom = some x.name
    rw [dropReference_eq_some_iff yOther, dropReference_eq_some_iff xOther]
    exact linked.both x xKnown y yKnown
  · intro x xIn
    obtain ⟨x, known, _, rfl⟩ := mem_keys_dropKey distinct xIn
    intro follows
    refine linked.retired x known fun none_ => follows ?_
    show dropReference name x.rotatedTo = none
    simp [dropReference, none_]
  · intro x xIn
    obtain ⟨x, known, other, rfl⟩ := mem_keys_dropKey distinct xIn
    show dropReference name x.rotatedTo ≠ some x.name
    rw [Ne, dropReference_eq_some_iff other]
    exact linked.apart x known
  · have left := linked.forward.sublist (List.eraseP_sublist (p := (·.name = name)))
    refine List.pairwise_map.mpr (left.imp fun {a b} ahead leads => ahead ?_)
    have kept : dropReference name b.rotatedTo = some a.name := leads
    unfold dropReference at kept
    split at kept
    · cases kept
    · exact kept

theorem KeyStep.linked (step : KeyStep inv keys) (sound : inv.Consistent) (linked : Linked inv.keys) :
    Linked keys := by
  cases step with
  | none => exact linked
  | entered entered => exact linked.enters sound entered
  | rotated rotated => exact linked.succeeds sound (rotated.succeeds sound.keysDistinct)
  | revoked name =>
    exact linked.changeKey sound.keysDistinct (fun k => ⟨rfl, rfl, rfl⟩) fun k active => by cases active
  | expiring name expiresAt =>
    exact linked.changeKey sound.keysDistinct (fun k => ⟨rfl, rfl, rfl⟩) fun k active => active
  | dropped name => exact linked.dropKey sound.keysDistinct

theorem Inventory.Reaches.linked (run : Reaches .empty inv) : Linked inv.keys := by
  induction run with
  | start => exact linked_nil
  | step vault r before ih =>
    have sound := before.consistent (check_eq_nil_iff.mp rfl)
    exact (r.effect vault _).keyStep.linked sound ih

/-- The keys that are met when the links are followed from a key to one that has no follower. -/
inductive Inventory.Trail (inv : Inventory) : Key → List Key → Prop where
  | last {k : Key} : k.rotatedTo = none → Trail inv k [k]
  | next {k follower : Key} {name : String} {rest : List Key} : k.rotatedTo = some name →
      inv.findKey? name = some follower → Trail inv follower rest → Trail inv k (k :: rest)

/-- From any place in the list the links lead on through later places only. -/
theorem Linked.trail (linked : Linked inv.keys) (sound : inv.Consistent) (k : Key)
    (before after : List Key) (split : inv.keys = before ++ k :: after) :
    ∃ rest, Trail inv k (k :: rest) ∧ rest.Sublist after := by
  -- by strong induction on the number of keys after the place
  induction size : after.length using Nat.strongRecOn generalizing k before after with
  | ind n ih =>
    have known : k ∈ inv.keys := by simp [split]
    cases leads : k.rotatedTo with
    | none => exact ⟨[], .last leads, List.nil_sublist _⟩
    | some name =>
      obtain ⟨follower, followerKnown, rfl⟩ := List.mem_map.mp ((sound.links k known).2 name leads)
      have found := findKey?_of_mem sound.keysDistinct followerKnown
      have later : follower ∈ after := by
        have forward := linked.forward
        rw [split] at followerKnown forward
        rcases List.mem_append.mp followerKnown with earlier | here
        · exact absurd leads ((List.pairwise_append.mp forward).2.2 follower earlier k (by simp))
        · rcases List.mem_cons.mp here with rfl | later
          · exact absurd leads (linked.apart follower known)
          · exact later
      obtain ⟨between, last, rfl⟩ := List.append_of_mem later
      have shorter : last.length < n := by
        rw [← size, List.length_append, List.length_cons]
        omega
      obtain ⟨rest, trail, inside⟩ := ih last.length shorter follower (before ++ k :: between) last
        (by rw [split]; simp) rfl
      exact ⟨follower :: rest, .next leads found trail,
        (inside.cons_cons follower).trans (List.sublist_append_right between _)⟩

/-- In every run from an empty inventory the links are mutual, no key that was followed is in use, no
two keys have the same follower or follow the same key, and from each key the links lead to an end
without coming to a key twice. -/
theorem Inventory.rotation_chains (run : Reaches .empty inv) :
    (∀ x ∈ inv.keys, ∀ y ∈ inv.keys, x.rotatedTo = some y.name ↔ y.rotatedFrom = some x.name) ∧
      (∀ x ∈ inv.keys, x.rotatedTo ≠ none → x.isActive = false) ∧
      (∀ x ∈ inv.keys, ∀ y ∈ inv.keys, ∀ n, x.rotatedTo = some n ∧ y.rotatedTo = some n ∨
        x.rotatedFrom = some n ∧ y.rotatedFrom = some n → x = y) ∧
      ∀ x ∈ inv.keys, ∃ trail, Trail inv x trail ∧ (trail.map (·.name)).Nodup := by
  have linked := run.linked
  have sound := run.consistent (check_eq_nil_iff.mp rfl)
  refine ⟨linked.both, fun x known follows => ?_, fun x xKnown y yKnown n shared => ?_,
    fun x known => ?_⟩
  · have retired := linked.retired x known follows
    simpa [Key.isActive] using retired
  · refine eq_of_name_eq sound.keysDistinct xKnown yKnown ?_
    rcases shared with ⟨xTo, yTo⟩ | ⟨xFrom, yFrom⟩
    · obtain ⟨z, zKnown, rfl⟩ := List.mem_map.mp ((sound.links x xKnown).2 n xTo)
      have xBack := (linked.both x xKnown z zKnown).mp xTo
      have yBack := (linked.both y yKnown z zKnown).mp yTo
      exact Option.some.inj (xBack.symm.trans yBack)
    · obtain ⟨z, zKnown, rfl⟩ := List.mem_map.mp ((sound.links x xKnown).1 n xFrom)
      have toX := (linked.both z zKnown x xKnown).mpr xFrom
      have toY := (linked.both z zKnown y yKnown).mpr yFrom
      exact Option.some.inj (toX.symm.trans toY)
  · obtain ⟨before, after, split⟩ := List.append_of_mem known
    obtain ⟨rest, trail, inside⟩ := linked.trail sound x before after split
    have sub : (x :: rest).Sublist inv.keys := by
      rw [split]
      exact (inside.cons_cons x).trans (List.sublist_append_right before _)
    exact ⟨x :: rest, trail, sound.keysDistinct.sublist (sub.map (·.name))⟩

/-- A fresh world in which the key `work` has been made and then replaced. -/
def replacedWorld : World :=
  let made := (Request.generate ⟨"work", .ed25519, none, none, none, none, []⟩ ⟨0, 0⟩).after "vault"
    Request.freshWorld
  (Request.rotate ⟨"work", none, none, none, none, none⟩ ⟨0, 0⟩).after "vault" made

theorem rotation_chains_of_replacedWorld :
    (replacedWorld.inventory.keys.map fun k => (k.name, k.rotatedFrom, k.rotatedTo)) =
        [("work", none, some "work-19700101"), ("work-19700101", some "work", none)] ∧
      ∀ x ∈ replacedWorld.inventory.keys,
        ∃ trail, replacedWorld.inventory.Trail x trail ∧ (trail.map (·.name)).Nodup := by
  have run : Reaches .empty replacedWorld.inventory :=
    .step "vault" _ (.step (w := Request.freshWorld) "vault" _ .start)
  exact ⟨by decide +kernel, (rotation_chains run).2.2.2⟩

end Keyring

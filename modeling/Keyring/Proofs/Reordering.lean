import Keyring.Proofs.Audit
import Keyring.Proofs.Inventory.Integrity
import Keyring.Proofs.Inventory.Lookup
import Keyring.Proofs.Managed.Stanzas

/-!
# The order of the records

Keys and hosts stand in the inventory as they were added. What the user is shown of a
consistent inventory does not depend on that: the block for the ssh configuration and
the report of an audit are sorted. Both sorts are stable, so that items which tie stay
in the order of the inventory; but only findings on one record tie, and these are made
in one order.
-/

namespace Keyring

section Sorting

variable {α β : Type} {le : α → α → Bool} {l l' : List α}

/-- Neither of two items comes before the other. -/
def ties (le : α → α → Bool) (a b : α) : Bool := le a b && le b a

/-- Sorted lists are the same where what ties with an item comes in the same order in both. -/
theorem eq_of_pairwise_of_ties (total : ∀ a b, (le a b || le b a) = true) (sorted : l.Pairwise (le · ·))
    (sorted' : l'.Pairwise (le · ·)) (same : ∀ a, l.filter (ties le a) = l'.filter (ties le a)) : l = l' := by
  have self (a : α) : ties le a a = true := by simpa [ties] using total a a
  have found {a : α} {m m' : List α} (alike : m.filter (ties le a) = m'.filter (ties le a)) (member : a ∈ m) :
      a ∈ m' :=
    (List.mem_filter.mp (alike ▸ List.mem_filter.mpr ⟨member, self a⟩)).1
  induction l generalizing l' with
  | nil =>
    cases l' with
    | nil => rfl
    | cons b rest => exact absurd (found (same b).symm List.mem_cons_self) List.not_mem_nil
  | cons a rest ih =>
    cases l' with
    | nil => exact absurd (found (same a) List.mem_cons_self) List.not_mem_nil
    | cons b rest' =>
      have ahead {x y : α} {m : List α} (ordered : (x :: m).Pairwise (le · ·)) (member : y ∈ x :: m) :
          le x y = true := by
        rcases List.mem_cons.mp member with rfl | later
        · simpa using total y y
        · exact List.rel_of_pairwise_cons ordered later
      -- each head is found in the other list, and so neither comes first
      have tied : ties le a b = true := by
        rw [ties, Bool.and_eq_true]
        exact ⟨ahead sorted (found (same b).symm List.mem_cons_self),
          ahead sorted' (found (same a) List.mem_cons_self)⟩
      have heads := same a
      rw [List.filter_cons_of_pos (self a), List.filter_cons_of_pos tied] at heads
      obtain rfl := (List.cons.inj heads).1
      refine congrArg (a :: ·) (ih sorted.of_cons sorted'.of_cons fun c => ?_)
      have tails := same c
      rw [List.filter_cons, List.filter_cons] at tails
      split at tails
      · exact (List.cons.inj tails).2
      · exact tails

/-- What ties with an item stays in order when a list is sorted. -/
theorem filter_ties_mergeSort (trans : ∀ a b c, le a b = true → le b c = true → le a c = true)
    (total : ∀ a b, (le a b || le b a) = true) (l : List α) (a : α) :
    (l.mergeSort le).filter (ties le a) = l.filter (ties le a) := by
  have level : (l.filter (ties le a)).Pairwise (le · ·) := by
    refine List.pairwise_of_forall_mem_list fun x inX y inY => ?_
    have before := List.of_mem_filter inX
    have after := List.of_mem_filter inY
    rw [ties, Bool.and_eq_true] at before after
    exact trans x a y before.2 after.1
  have kept := (List.sublist_mergeSort trans total level List.filter_sublist).filter (ties le a)
  rw [List.filter_filter] at kept
  simp only [Bool.and_self] at kept
  exact (kept.eq_of_length ((List.mergeSort_perm l le).filter _).length_eq.symm).symm

theorem mergeSort_eq_of_ties (trans : ∀ a b c, le a b = true → le b c = true → le a c = true)
    (total : ∀ a b, (le a b || le b a) = true) (same : ∀ a, l.filter (ties le a) = l'.filter (ties le a)) :
    l.mergeSort le = l'.mergeSort le := by
  refine eq_of_pairwise_of_ties total (List.pairwise_mergeSort trans total l)
    (List.pairwise_mergeSort trans total l') fun a => ?_
  rw [filter_ties_mergeSort trans total, filter_ties_mergeSort trans total, same a]

/-- The order of a list does not matter to what its items yield where no two of them yield something. -/
theorem flatMap_eq_of_perm {f : α → List β} (perm : l.Perm l')
    (alone : l.Pairwise fun x y => f x = [] ∨ f y = []) : l.flatMap f = l'.flatMap f := by
  induction perm with
  | nil => rfl
  | cons x _ ih => rw [List.flatMap_cons, List.flatMap_cons, ih alone.of_cons]
  | swap x y rest =>
    rcases List.rel_of_pairwise_cons alone List.mem_cons_self with none | none <;> simp [none]
  | trans first _ ih ih' =>
    have symm : ∀ {x y : α}, f x = [] ∨ f y = [] → f y = [] ∨ f x = [] := Or.symm
    exact (ih alone).trans (ih' (alone.perm first symm))

end Sorting

/-- The same records, the keys and the hosts in another order. -/
structure Reordered (inv inv' : Inventory) : Prop where
  keys : inv.keys.Perm inv'.keys
  hosts : inv.hosts.Perm inv'.hosts
  deployments : inv'.deployments = inv.deployments

namespace Reordered

variable {inv inv' : Inventory}

theorem consistent (order : Reordered inv inv') (sound : inv.Consistent) : inv'.Consistent where
  keysDistinct := ((order.keys.map _).nodup_iff).mp sound.keysDistinct
  hostsDistinct := ((order.hosts.map _).nodup_iff).mp sound.hostsDistinct
  jointsDistinct := by
    rw [Inventory.joints, order.deployments]
    exact sound.jointsDistinct
  joined := by
    intro d member
    obtain ⟨key, host⟩ := sound.joined d (order.deployments ▸ member)
    exact ⟨(order.keys.map _).mem_iff.mp key, (order.hosts.map _).mem_iff.mp host⟩
  identities := fun h member name is =>
    (order.keys.map _).mem_iff.mp (sound.identities h (order.hosts.mem_iff.mpr member) name is)
  links := fun k member =>
    have linked := sound.links k (order.keys.mem_iff.mpr member)
    ⟨fun name is => (order.keys.map _).mem_iff.mp (linked.1 name is),
      fun name is => (order.keys.map _).mem_iff.mp (linked.2 name is)⟩

/-- A name leads to the same key where no key has the name of another. -/
theorem findKey? (order : Reordered inv inv') (sound : inv.Consistent) (name : String) :
    inv'.findKey? name = inv.findKey? name := by
  cases found : inv.findKey? name with
  | none =>
    rw [Inventory.findKey?_eq_none_iff] at found ⊢
    exact fun member => found ((order.keys.map _).mem_iff.mpr member)
  | some k =>
    have named := Inventory.name_of_findKey? found
    have member : k ∈ inv'.keys := order.keys.mem_iff.mp (List.mem_of_find?_eq_some found)
    cases found' : inv'.findKey? name with
    | none =>
      rw [Inventory.findKey?_eq_none_iff] at found'
      exact absurd (List.mem_map.mpr ⟨k, member, named⟩) found'
    | some k' =>
      have distinct := (order.consistent sound).keysDistinct
      have same : k'.name = k.name := (Inventory.name_of_findKey? found').trans named.symm
      exact congrArg some (List.inj_on_of_nodup_map distinct (List.mem_of_find?_eq_some found') member same)

theorem identityOf? (order : Reordered inv inv') (sound : inv.Consistent) (h : Host) :
    inv'.identityOf? h = inv.identityOf? h := by
  unfold Inventory.identityOf?
  cases h.identity with
  | none => rfl
  | some name => exact order.findKey? sound name

theorem hostsByAlias (order : Reordered inv inv') (sound : inv.Consistent) :
    Managed.hostsByAlias inv' = Managed.hostsByAlias inv := by
  refine List.Perm.eq_of_pairwise (fun a b _ _ before after => absurd before (lt_asymm after))
    (Managed.pairwise_hostsByAlias (order.consistent sound).hostsDistinct)
    (Managed.pairwise_hostsByAlias sound.hostsDistinct) ?_
  have same : inv'.hosts.Perm inv.hosts := order.hosts.symm
  exact (Managed.perm_hostsByAlias inv').trans (same.trans (Managed.perm_hostsByAlias inv).symm)

theorem stanza (order : Reordered inv inv') (sound : inv.Consistent) (h : Host) :
    Managed.stanza inv' h = Managed.stanza inv h := by
  unfold Managed.stanza Managed.usableIdentity?
  rw [order.identityOf? sound]

theorem block (order : Reordered inv inv') (sound : inv.Consistent) :
    Managed.block inv' = Managed.block inv := by
  unfold Managed.block Managed.stanzas
  rw [order.hostsByAlias sound, funext (order.stanza sound)]

end Reordered

namespace Audit

open Time

variable {inv inv' : Inventory} {f : Finding}

theorem subject_of_mem_marksOn {m : Mark} {subject : String} {times : Rule → Nat}
    (member : m ∈ marksOn subject times) : m.subject = subject := by
  obtain ⟨r, -, marked⟩ := List.mem_flatMap.mp member
  obtain ⟨-, rfl⟩ := List.mem_replicate.mp marked
  rfl

theorem subject_of_marks {found : List Finding} {subject : String} {times : Rule → Nat}
    (marks : (found.map Finding.mark).Perm (marksOn subject times)) (member : f ∈ found) :
    f.subject = subject :=
  subject_of_mem_marksOn (marks.mem_iff.mp (List.mem_map_of_mem member))

theorem subject_of_ties {f g : Finding} (tied : ties Finding.precedes f g = true) : g.subject = f.subject := by
  rw [ties, Bool.and_eq_true, precedes_iff, precedes_iff] at tied
  obtain ⟨before, after⟩ := tied
  rcases before with worse | ⟨severity, subject⟩
  · rcases after with worse' | ⟨severity, -⟩
    · exact absurd worse (Nat.lt_asymm worse')
    · exact absurd worse (severity ▸ Nat.lt_irrefl _)
  rcases after with worse | ⟨-, subject'⟩
  · exact absurd worse (severity ▸ Nat.lt_irrefl _)
  rcases subject with earlier | ⟨same, -⟩
  · rcases subject' with earlier' | ⟨same, -⟩
    · exact absurd earlier (lt_asymm earlier')
    · exact same
  · exact same.symm

/-- What ties with a finding comes from the one record that it is on. -/
theorem filter_ties_flatMap {α : Type} {items items' : List α} {name : α → String} {found : α → List Finding}
    (order : items.Perm items') (distinct : (items.map name).Nodup)
    (onIt : ∀ a, ∀ f ∈ found a, f.subject = name a) (f : Finding) :
    (items.flatMap found).filter (ties Finding.precedes f) =
      (items'.flatMap found).filter (ties Finding.precedes f) := by
  have none {a : α} (other : name a ≠ f.subject) : (found a).filter (ties Finding.precedes f) = [] := by
    refine List.filter_eq_nil_iff.mpr fun g member tied => other ?_
    rw [← onIt a g member, subject_of_ties tied]
  rw [List.filter_flatMap, List.filter_flatMap]
  refine flatMap_eq_of_perm order ((List.pairwise_map.mp distinct).imp fun {a b} apart => ?_)
  by_cases is : name a = f.subject
  · exact .inr (none fun is' => apart (is.trans is'.symm))
  · exact .inl (none is)

theorem keyFindings_reordered (order : Reordered inv inv') (p : Policy) (now : Instant) (k : Key) :
    keyFindings inv' p now k = keyFindings inv p now k := by
  have hostNames : inv'.hostNamesOf k.name = inv.hostNamesOf k.name := by
    unfold Inventory.hostNamesOf Inventory.deploymentsOfKey
    rw [order.deployments]
  have unused : inv'.hostsUsing k.name = [] ↔ inv.hostsUsing k.name = [] := by
    rw [Inventory.hostsUsing_eq_nil_iff, Inventory.hostsUsing_eq_nil_iff]
    exact forall_congr' fun h => imp_congr_left order.hosts.mem_iff.symm
  unfold keyFindings deployedFindings unusedFindings
  simp only [hostNames, unused]

theorem hostFindings_reordered (order : Reordered inv inv') (sound : inv.Consistent) (h : Host) :
    hostFindings inv' h = hostFindings inv h := by
  unfold hostFindings identityFindings
  rw [order.identityOf? sound]

/-- A key and a host may share a name: the findings on the key come first in either order. -/
theorem filter_ties_findings (order : Reordered inv inv') (sound : inv.Consistent) (p : Policy) (now : Instant)
    (f : Finding) : (findings inv p now).filter (ties Finding.precedes f) =
      (findings inv' p now).filter (ties Finding.precedes f) := by
  unfold findings
  rw [Inventory.check_eq_nil_iff.mpr sound, Inventory.check_eq_nil_iff.mpr (order.consistent sound),
    funext (keyFindings_reordered order p now), funext (hostFindings_reordered order sound)]
  have keys := filter_ties_flatMap order.keys sound.keysDistinct
    (fun k _ => subject_of_marks (keyFindings_marks inv p now k)) f
  have hosts := filter_ties_flatMap order.hosts sound.hostsDistinct
    (fun h _ => subject_of_marks (hostFindings_marks inv h)) f
  rw [List.filter_append, List.filter_append, List.filter_append, List.filter_append, keys, hosts]

theorem report_reordered (order : Reordered inv inv') (sound : inv.Consistent) (p : Policy) (now : Instant) :
    report inv' p now = report inv p now := by
  unfold report
  rw [mergeSort_eq_of_ties Finding.precedes_trans Finding.precedes_total (filter_ties_findings order sound p now)]

end Audit

/-- In whatever order a consistent inventory lists its keys and its hosts, the block for the ssh configuration
is the same text, and an audit reports the same. -/
theorem same_view_of_reordered {inv inv' : Inventory} (sound : inv.check = []) (order : Reordered inv inv') :
    Managed.block inv' = Managed.block inv ∧
      ∀ p now, Audit.report inv' p now = Audit.report inv p now := by
  have consistent := Inventory.check_eq_nil_iff.mp sound
  exact ⟨order.block consistent, Audit.report_reordered order consistent⟩

/-- Two keys, and two hosts of which one has the name of a key. -/
def sharedNameInventory : Inventory :=
  { linkedInventory with
    hosts := linkedInventory.hosts ++ [⟨"work", "example.net", "root", 22, none, [], ⟨0, 0⟩, none, none, none⟩] }

theorem same_view_of_sharedNameInventory :
    let inv := sharedNameInventory
    let inv' := { inv with keys := inv.keys.reverse, hosts := inv.hosts.reverse }
    inv.check = [] ∧ Reordered inv inv' ∧ Managed.block inv' = Managed.block inv ∧
      ∀ p now, Audit.report inv' p now = Audit.report inv p now := by
  intro inv inv'
  have sound : inv.check = [] := by decide +kernel
  have order : Reordered inv inv' := ⟨(List.reverse_perm _).symm, (List.reverse_perm _).symm, rfl⟩
  exact ⟨sound, order, same_view_of_reordered sound order⟩

end Keyring

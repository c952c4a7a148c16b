import Keyring.Proofs.Inventory.HostSteps
import Keyring.Proofs.Inventory.Integrity
import Keyring.Proofs.Text.Words

/-!
# Names of hosts

A new host has a hostname that no blank begins or ends. A change of a host may put any text in its
place, and nothing else may (`Effect.hostname_of_mem`): along a run (`Follows`) all hostnames are
such ones just where no change that is done puts in another (`Misnames`).
-/

namespace Keyring

open Inventory Lifecycle Remote Time

variable {inv inv' : Inventory} {past : List (Inventory × Request)} {h : Host} {s : String}

/-- What a new host may be reached by: a text that no blank begins or ends. -/
structure IsHostname (s : String) : Prop where
  some_ : s ≠ ""
  trimmed : Text.IsTrimmed s.toList

/-- Each host on record has a hostname as a new one must have. -/
def Inventory.HostsNamed (inv : Inventory) : Prop := ∀ h ∈ inv.hosts, IsHostname h.hostname

theorem isHostname_trimmed (some_ : Text.isAllBlank s = false) : IsHostname (Text.trimmed s) := by
  constructor
  · intro none_
    have nothing : Text.trim s.toList = [] := by simpa [Text.trimmed] using none_
    have blank := Text.isBlanks_of_trim_eq_nil nothing
    rw [Text.isAllBlank, List.all_eq_true.mpr blank] at some_
    cases some_
  · rw [Text.trimmed, String.toList_ofList]
    exact Text.isTrimmed_trim _

theorem isHostname_of_hostOf {req : NewHost} {here : Option String} {now : Instant}
    (made : hostOf req here now = .ok h) : IsHostname h.hostname := by
  obtain ⟨-, some_, rfl⟩ := hostOf_eq_ok made
  exact isHostname_trimmed some_

/-- A change of a host on record, not refused for its key, puts in a hostname. -/
inductive Request.Renames (inv : Inventory) (s : String) : Request → Prop where
  | updateHost {label : String} {change : HostChange} : change.hostname = some s → label ∈ inv.hostLabels →
      Resolves inv.keyNames change.identity → Renames inv s (.updateHost label change)

/-- It puts in one that no new host could have. -/
def Request.Misnames (inv : Inventory) (r : Request) : Prop := ∃ s, r.Renames inv s ∧ ¬ IsHostname s

/-- The hostname of each host after a request was one before, is that of a new host, or was put in by a
change. -/
theorem Effect.hostname_of_mem {r : Request} (effect : Effect inv r inv') (inside : h ∈ inv'.hosts) :
    (∃ b ∈ inv.hosts, h.hostname = b.hostname) ∨ (∃ req here now, hostOf req here now = .ok h) ∨
      r.Renames inv h.hostname := by
  have same (inside : h ∈ inv.hosts) : ∃ b ∈ inv.hosts, h.hostname = b.hostname := ⟨h, inside, rfl⟩
  cases effect with
  | nothing | revokeKey | setExpiry => exact .inl (same inside)
  | generate entered | importKey entered =>
    rw [entered.added] at inside
    exact .inl (same inside)
  | rotate rotated =>
    obtain ⟨old, made, mid, -, entered, -, -, rfl⟩ := rotated.succession
    obtain ⟨b, known, rfl⟩ := List.mem_map.mp inside
    refine .inl ⟨b, ?_, by split <;> rfl⟩
    simpa [entered.added, changeKey] using known
  | removeKey removed =>
    obtain ⟨_, _, _, rfl⟩ := removeKey_eq_ok removed
    obtain ⟨b, known, rfl⟩ := List.mem_map.mp inside
    exact .inl ⟨b, known, rfl⟩
  | addHost made inserted =>
    obtain ⟨_, _, rfl⟩ := insertHost_eq_ok inserted
    rcases List.mem_append.mp inside with known | last
    · exact .inl (same known)
    · obtain rfl := List.mem_singleton.mp last
      exact .inr (.inl ⟨_, _, _, made⟩)
  | @updateHost label change keyed =>
    by_cases known : label ∈ inv.hostLabels
    · rcases of_mem_changeFirst inside with kept | ⟨b, old, rfl⟩
      · exact .inl (same kept)
      · cases given : change.hostname with
        | none => exact .inl ⟨b, old, by simp [HostChange.apply, given]⟩
        | some s =>
          refine .inr (.inr (.updateHost (by simp [HostChange.apply, given]) known fun i is => ?_))
          obtain ⟨k, found⟩ := keyed i is
          exact mem_keyNames_of_key found
    · have none_ : ∀ b ∈ inv.hosts, decide (b.label = label) = false := by
        simpa [hostLabels] using known
      rw [changeHost, changeFirst_eq_self none_] at inside
      exact .inl (same inside)
  | removeHost removed =>
    rw [removeHost_eq_ok removed] at inside
    exact .inl (same (List.mem_of_mem_eraseP inside))
  | testConnection =>
    rcases of_mem_changeFirst inside with known | ⟨b, known, rfl⟩
    · exact .inl (same known)
    · exact .inl ⟨b, known, rfl⟩
  | deploy _ recorded | markDeployed _ recorded =>
    obtain ⟨_, rfl⟩ := of_recordDeployment recorded
    exact .inl (same inside)
  | verify marked =>
    rw [markVerified_eq_ok marked] at inside
    exact .inl (same inside)
  | revoke removed =>
    rw [removeDeployment_eq_ok removed] at inside
    exact .inl (same inside)

theorem Request.Renames.mem_after {r : Request} {w : World} (renames : r.Renames w.inventory s) (vault : Path) :
    ∃ h ∈ (r.after vault w).inventory.hosts, h.hostname = s := by
  obtain @⟨label, change, given, known, keyed⟩ := renames
  obtain ⟨h, found⟩ := exists_host_of_mem known
  have run : (after vault (.updateHost label change) w).inventory = w.inventory.changeHost label change.apply := by
    have resolved : ∃ identity, change.identity.mapM w.inventory.key = .ok identity := by
      cases asked : change.identity with
      | none => exact ⟨none, rfl⟩
      | some i =>
        obtain ⟨k, isKey⟩ := exists_key_of_mem (keyed i asked)
        have looked : (some i).mapM w.inventory.key = some <$> w.inventory.key i := rfl
        exact ⟨some k, by rw [looked, isKey]; rfl⟩
    obtain ⟨identity, resolved⟩ := resolved
    rw [after, run, outcome_discard, Remote.outcome_updateHost, resolved, found]
  have still : ∀ b : Host, decide (b.label = label) = true → decide ((change.apply b).label = label) = true :=
    fun _ fits => fits
  have changed : (w.inventory.changeHost label change.apply).hosts.find? (·.label = label) = some (change.apply h) :=
    find?_changeFirst_self still (host_eq_ok_iff.mp found)
  rw [run]
  exact ⟨change.apply h, List.mem_of_find?_eq_some changed, by simp [HostChange.apply, given]⟩

/-- Where all hostnames are proper ones, they stay so just if the request puts in no other. -/
theorem Request.hostsNamed_after_iff (vault : Path) (r : Request) {w : World} (named : w.inventory.HostsNamed) :
    (r.after vault w).inventory.HostsNamed ↔ ¬ r.Misnames w.inventory := by
  constructor
  · rintro after ⟨s, renames, improper⟩
    obtain ⟨h, inside, rfl⟩ := renames.mem_after vault
    exact improper (after h inside)
  · intro fine h inside
    rcases (r.effect vault w).hostname_of_mem inside with ⟨b, known, same⟩ | ⟨_, _, _, made⟩ | renames
    · rw [same]
      exact named b known
    · exact isHostname_of_hostOf made
    · by_contra improper
      exact fine ⟨_, renames, improper⟩

/-- An inventory after requests made one after the other from an empty one, with each request and the
inventory that it was made for, the last one first. -/
inductive Inventory.Follows : List (Inventory × Request) → Inventory → Prop where
  | start : Follows [] .empty
  | step {w : World} {past : List (Inventory × Request)} (vault : Path) (r : Request) :
      Follows past w.inventory → Follows ((w.inventory, r) :: past) (r.after vault w).inventory

theorem Inventory.Follows.reaches (run : Follows past inv) : Reaches .empty inv := by
  induction run with
  | start => exact .start
  | step vault r _ ih => exact .step vault r ih

/-- Each hostname on record is a proper one, or a change in the run put it in. -/
theorem Inventory.Follows.hostname_of_mem (run : Follows past inv) :
    ∀ h ∈ inv.hosts, IsHostname h.hostname ∨ ∃ step ∈ past, step.2.Renames step.1 h.hostname := by
  induction run with
  | start => exact List.forall_mem_nil _
  | step vault r _ ih =>
    intro h inside
    rcases (r.effect vault _).hostname_of_mem inside with ⟨b, known, same⟩ | ⟨_, _, _, made⟩ | renames
    · rw [same]
      rcases ih b known with proper | ⟨step, earlier, renames⟩
      · exact .inl proper
      · exact .inr ⟨step, List.mem_cons_of_mem _ earlier, renames⟩
    · exact .inl (isHostname_of_hostOf made)
    · exact .inr ⟨_, List.mem_cons_self, renames⟩

/-- In every run the alias of each host is a name. The hostnames are proper ones from the beginning to
the end just where no change that is done puts in another, and one that is not was put in by a change. -/
theorem Inventory.hostsNamed_iff_of_follows (run : Follows past inv) :
    (∀ h ∈ inv.hosts, Name.isName h.label = true ∧
        (IsHostname h.hostname ∨ ∃ step ∈ past, step.2.Renames step.1 h.hostname)) ∧
      ((inv.HostsNamed ∧ ∀ step ∈ past, step.1.HostsNamed) ↔ ∀ step ∈ past, ¬ step.2.Misnames step.1) := by
  constructor
  · intro h inside
    exact ⟨run.reaches.isName_label _ (List.mem_map_of_mem inside), run.hostname_of_mem h inside⟩
  · induction run with
    | start => simp [HostsNamed, Inventory.empty]
    | step vault r _ ih =>
      rw [List.forall_mem_cons, List.forall_mem_cons, ← ih]
      constructor
      · rintro ⟨after, before, earlier⟩
        exact ⟨(r.hostsNamed_after_iff vault before).mp after, before, earlier⟩
      · rintro ⟨fine, before, earlier⟩
        exact ⟨(r.hostsNamed_after_iff vault before).mpr fine, before, earlier⟩

/-- A host `web` is put on record. -/
def newWeb : Request := .addHost ⟨"web", "example.org", none, none, none, []⟩ none ⟨0, 0⟩

/-- Its hostname is changed to a blank. -/
def blankWeb : Request := .updateHost "web" ⟨some " ", none, none, none, false, none⟩

/-- The inventory with the new host. -/
def webInventory : Inventory := (newWeb.after "vault" (bareWorld .empty)).inventory

/-- The change is done, and the one hostname on record is a blank. -/
theorem hostsNamed_iff_of_blankWeb :
    webInventory.HostsNamed ∧ blankWeb.Misnames webInventory ∧
      (blankWeb.after "vault" (bareWorld webInventory)).inventory.hosts.map (·.hostname) = [" "] ∧
      ¬ (blankWeb.after "vault" (bareWorld webInventory)).inventory.HostsNamed := by
  have improper : ¬ IsHostname " " := fun proper => absurd (proper.trimmed.first ' ' rfl) (by decide)
  have known : "web" ∈ webInventory.hostLabels := by decide +kernel
  have misnames : blankWeb.Misnames webInventory := ⟨" ", .updateHost rfl known nofun, improper⟩
  have added : Follows [(.empty, newWeb)] webInventory := .step (w := bareWorld .empty) "vault" newWeb .start
  have changed := Follows.step (w := bareWorld webInventory) "vault" blankWeb added
  have fine : ∀ step ∈ [(Inventory.empty, newWeb)], ¬ step.2.Misnames step.1 := by
    intro step inside
    rw [List.mem_singleton.mp inside]
    rintro ⟨s, renames, -⟩
    cases renames
  have named := (hostsNamed_iff_of_follows added).2.mpr fine
  refine ⟨named.1, misnames, by decide +kernel, fun after => ?_⟩
  have none_ := (hostsNamed_iff_of_follows changed).2.mp ⟨after, List.forall_mem_cons.mpr named⟩
  exact none_ _ List.mem_cons_self misnames

end Keyring

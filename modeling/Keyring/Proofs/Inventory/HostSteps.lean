import Keyring.Proofs.Inventory.Edits
import Keyring.Proofs.Operation.Request

/-!
# What a request does to the hosts

A request adds a host, changes one, takes one out, or goes over all of them when a key is
replaced or removed. What holds of all hosts in every run is proved for these few steps
(`HostStep`).
-/

namespace Keyring

open Inventory Lifecycle Remote Time

variable {inv inv' : Inventory} {hosts : List Host} {h : Host}

/-- What a request may do to the hosts on record. -/
inductive HostStep (inv : Inventory) : List Host → Prop where
  | none : HostStep inv inv.hosts
  | added {req : NewHost} {here : Option String} {now : Instant} {h : Host} :
      hostOf req here now = .ok h → HostStep inv (inv.hosts ++ [h])
  | updated (label : String) (change : HostChange) : HostStep inv (inv.changeHost label change.apply).hosts
  | checked (label : String) (error : Option String) (now : Instant) :
      HostStep inv (recordCheck inv label error now).hosts
  | switched (old new : String) : HostStep inv (inv.hosts.map (switchHost old new))
  | unlinked (name : String) : HostStep inv (inv.hosts.map (unlinkHost name))
  | removed (label : String) : HostStep inv (inv.hosts.eraseP (·.label = label))

theorem Effect.hostStep {r : Request} (effect : Effect inv r inv') : HostStep inv inv'.hosts := by
  cases effect with
  | nothing => exact .none
  | generate entered =>
    rw [entered.added]
    exact .none
  | importKey entered =>
    rw [entered.added]
    exact .none
  | rotate rotated =>
    obtain ⟨old, made, mid, -, entered, -, -, rfl⟩ := rotated.succession
    have same : mid.hosts = inv.hosts := by rw [entered.added]
    have hosts : (linkRotation mid old.name made.name).hosts = inv.hosts.map (switchHost old.name made.name) := by
      rw [← same]
      rfl
    rw [hosts]
    exact .switched _ _
  | revokeKey => exact .none
  | setExpiry => exact .none
  | removeKey removed =>
    obtain ⟨_, _, _, rfl⟩ := removeKey_eq_ok removed
    exact .unlinked _
  | addHost made inserted =>
    obtain ⟨_, _, rfl⟩ := insertHost_eq_ok inserted
    exact .added made
  | updateHost => exact .updated _ _
  | removeHost removed =>
    rw [removeHost_eq_ok removed]
    exact .removed _
  | testConnection => exact .checked _ _ _
  | deploy _ recorded =>
    obtain ⟨_, rfl⟩ := of_recordDeployment recorded
    exact .none
  | markDeployed _ recorded =>
    obtain ⟨_, rfl⟩ := of_recordDeployment recorded
    exact .none
  | verify marked =>
    rw [markVerified_eq_ok marked]
    exact .none
  | revoke removed =>
    rw [removeDeployment_eq_ok removed]
    exact .none

/-- A new host has an alias that is a name, and a hostname from which the blanks at both ends are cut off. -/
theorem hostOf_eq_ok {req : NewHost} {here : Option String} {now : Instant} (made : hostOf req here now = .ok h) :
    Name.isName req.label = true ∧ Text.isAllBlank req.hostname = false ∧
      h = ⟨req.label, Text.trimmed req.hostname, req.user.getD (usualUser here), req.port.getD Host.defaultPort,
        req.identity, req.tags, now, none, none, none⟩ := by
  unfold hostOf at made
  cases named : Name.check req.label with
  | error e => simp [named, bind, Except.bind] at made
  | ok u =>
    simp only [named, bind, Except.bind] at made
    split at made
    · cases made
    · rename_i some_
      exact ⟨Name.isName_of_check named, by simpa using some_, (Except.ok.inj made).symm⟩

theorem isName_label_of_hostOf {req : NewHost} {here : Option String} {now : Instant}
    (made : hostOf req here now = .ok h) : Name.isName h.label = true := by
  obtain ⟨isName, -, rfl⟩ := hostOf_eq_ok made
  exact isName

/-- A step only adds the alias of a host that is added. -/
theorem HostStep.label_of_mem (step : HostStep inv hosts) (inside : h ∈ hosts) :
    h.label ∈ inv.hostLabels ∨ ∃ req here now, hostOf req here now = .ok h := by
  have changed {label : String} {change : Host → Host} (inside : h ∈ (inv.changeHost label change).hosts)
      (named : ∀ b, (change b).label = b.label) : h.label ∈ inv.hostLabels := by
    rcases of_mem_changeFirst inside with known | ⟨b, known, rfl⟩
    · exact List.mem_map_of_mem known
    · rw [named]
      exact List.mem_map_of_mem known
  cases step with
  | none => exact .inl (List.mem_map_of_mem inside)
  | added made =>
    rcases List.mem_append.mp inside with known | last
    · exact .inl (List.mem_map_of_mem known)
    · obtain rfl := List.mem_singleton.mp last
      exact .inr ⟨_, _, _, made⟩
  | updated label change => exact .inl (changed inside fun _ => rfl)
  | checked label error now => exact .inl (changed inside fun _ => rfl)
  | switched old new =>
    obtain ⟨b, known, rfl⟩ := List.mem_map.mp inside
    have named : (switchHost old new b).label = b.label := by
      unfold switchHost
      split <;> rfl
    rw [named]
    exact .inl (List.mem_map_of_mem known)
  | unlinked name =>
    obtain ⟨b, known, rfl⟩ := List.mem_map.mp inside
    exact .inl (List.mem_map.mpr ⟨b, known, rfl⟩)
  | removed label => exact .inl (List.mem_map_of_mem (List.mem_of_mem_eraseP inside))

/-- In every run the alias of each host is a name. -/
theorem Inventory.Reaches.isName_label (run : Reaches .empty inv) :
    ∀ label ∈ inv.hostLabels, Name.isName label = true := by
  induction run with
  | start => nofun
  | step vault r _ ih =>
    intro label listed
    obtain ⟨h, inside, rfl⟩ := List.mem_map.mp listed
    rcases (r.effect vault _).hostStep.label_of_mem inside with known | ⟨_, _, _, made⟩
    · exact ih _ known
    · exact isName_label_of_hostOf made

end Keyring

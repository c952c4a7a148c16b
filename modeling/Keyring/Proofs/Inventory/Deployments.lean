import Keyring.Proofs.Inventory.Retirement
import Keyring.Proofs.Remote.Answers

/-!
# One key on many hosts

A key comes to one host after the other, and to some of them again. Of all that an inventory keeps one
record for each host, which has the time of the last arrival there; every other record is where it was.
-/

namespace Keyring.Inventory

open Time

variable {inv inv' inv'' : Inventory} {key host : String} {method : DeployMethod} {now : Instant}

/-- A key came to a host. -/
structure Arrival where
  host : String
  time : Instant

variable {arrivals : List Arrival}

/-- When the key came to a host the last time. -/
def lastArrival? (arrivals : List Arrival) (host : String) : Option Instant :=
  (arrivals.filter (·.host = host)).getLast?.map (·.time)

theorem lastArrival?_concat_self (arrivals : List Arrival) (host : String) (t : Instant) :
    lastArrival? (arrivals ++ [⟨host, t⟩]) host = some t := by
  simp [lastArrival?]

theorem lastArrival?_concat_of_ne {other : String} (apart : other ≠ host) (arrivals : List Arrival) (t : Instant) :
    lastArrival? (arrivals ++ [⟨host, t⟩]) other = lastArrival? arrivals other := by
  simp [lastArrival?, Ne.symm apart]

/-- It is a record of the key on one of the hosts that it came to. -/
def isArrived (key : String) (arrivals : List Arrival) (d : Deployment) : Bool :=
  arrivals.any fun a => d.joins key a.host

/-- An inventory in which a key has come to some hosts. -/
structure Deployed (inv : Inventory) (key : String) (method : DeployMethod) (arrivals : List Arrival)
    (inv' : Inventory) : Prop where
  only : ∃ deployments, inv' = { inv with deployments := deployments }
  others : inv'.deployments.filter (!isArrived key arrivals ·) = inv.deployments.filter (!isArrived key arrivals ·)
  there : ∀ a ∈ arrivals, ∃ t, lastArrival? arrivals a.host = some t ∧
    inv'.deployments.filter (·.joins key a.host) = [⟨key, a.host, t, method, none⟩]

/-- A key is recorded on a host without notice of the records that are not of the two. -/
theorem filter_of_recordDeployment (recorded : inv.recordDeployment key host method now = .ok inv')
    {wanted : Deployment → Bool} (apart : ∀ d, d.joins key host = true → wanted d = false) :
    inv'.deployments.filter wanted = inv.deployments.filter wanted := by
  have unwanted : wanted ⟨key, host, now, method, none⟩ = false := apart _ (joins_eq_true_iff.mpr ⟨rfl, rfl⟩)
  obtain ⟨_, rfl, ⟨front, a, back, split, -, joins, rfl⟩ | ⟨-, rfl⟩⟩ := place_of_recordDeployment recorded
  · dsimp only
    rw [split]
    simp [unwanted, apart a joins]
  · simp [unwanted]

/-- Where no key is on a host twice, it is there once when that was recorded. -/
theorem filter_joins_of_recordDeployment (distinct : inv.joints.Nodup)
    (recorded : inv.recordDeployment key host method now = .ok inv') :
    inv'.deployments.filter (·.joins key host) = [⟨key, host, now, method, none⟩] := by
  have joined : Deployment.joins ⟨key, host, now, method, none⟩ key host = true := joins_eq_true_iff.mpr ⟨rfl, rfl⟩
  have none_ {items : List Deployment} (apart : ∀ d ∈ items, d.joins key host = false) :
      items.filter (·.joins key host) = [] := List.filter_eq_nil_iff.mpr (by simpa using apart)
  obtain ⟨_, rfl, ⟨front, a, back, split, before, joins, rfl⟩ | ⟨before, rfl⟩⟩ := place_of_recordDeployment recorded
  · have after : ∀ d ∈ back, d.joins key host = false := by
      intro d inside
      rw [Bool.eq_false_iff]
      intro again
      obtain ⟨isKey, isHost⟩ := joins_eq_true_iff.mp joins
      obtain ⟨isKey', isHost'⟩ := joins_eq_true_iff.mp again
      rw [joints, split, List.map_append, List.map_cons] at distinct
      have alone := (List.nodup_cons.mp (List.nodup_append.mp distinct).2.1).1
      refine alone (List.mem_map.mpr ⟨d, inside, ?_⟩)
      rw [isKey, isHost, isKey', isHost']
    dsimp only
    rw [List.filter_append, List.filter_append, none_ before, none_ after, List.filter_singleton, joined]
    rfl
  · dsimp only
    rw [List.filter_append, none_ before, List.filter_singleton, joined]
    rfl

theorem Deployed.refl (inv : Inventory) (key : String) (method : DeployMethod) :
    Deployed inv key method [] inv := ⟨⟨_, rfl⟩, rfl, nofun⟩

/-- The key comes to one more host, or to one of them again. -/
theorem Deployed.record (deployed : Deployed inv key method arrivals inv') (distinct : inv'.joints.Nodup)
    (recorded : inv'.recordDeployment key host method now = .ok inv'') :
    Deployed inv key method (arrivals ++ [⟨host, now⟩]) inv'' where
  only := by
    obtain ⟨_, rfl⟩ := deployed.only
    obtain ⟨_, rfl⟩ := of_recordDeployment recorded
    exact ⟨_, rfl⟩
  others := by
    have more (d : Deployment) : (!isArrived key (arrivals ++ [⟨host, now⟩]) d) =
        (!isArrived key arrivals d && !d.joins key host) := by
      simp [isArrived, Bool.not_or]
    simp only [more]
    rw [filter_of_recordDeployment recorded fun d joins => by simp [joins]]
    have fewer := congrArg (List.filter (!Deployment.joins · key host)) deployed.others
    simpa only [List.filter_filter, Bool.and_comm] using fewer
  there := by
    intro a member
    by_cases same : a.host = host
    · rw [same]
      exact ⟨now, lastArrival?_concat_self .., filter_joins_of_recordDeployment distinct recorded⟩
    · have known : a ∈ arrivals := by
        rcases List.mem_append.mp member with earlier | last
        · exact earlier
        · obtain rfl := List.mem_singleton.mp last
          exact absurd rfl same
      obtain ⟨t, last, there⟩ := deployed.there a known
      refine ⟨t, (lastArrival?_concat_of_ne same ..).trans last, ?_⟩
      rw [filter_of_recordDeployment recorded fun d joins => ?_]
      · exact there
      · obtain ⟨-, rfl⟩ := joins_eq_true_iff.mp joins
        simp [Deployment.joins, Ne.symm same]

end Keyring.Inventory

import Keyring.Proofs.Inventory.Lookup
import Keyring.Proofs.Operation.Running

/-!
# What edits make of an inventory

An edit looks first and changes last, so it makes another inventory of one or leaves it
as it is. What it makes is told for each edit by what it looks at.
-/

namespace Keyring

namespace InventoryM

variable {α β : Type}

/-- What work answers if it succeeds, and the inventory that it leaves then. -/
def made (work : InventoryM α) (inv : Inventory) : Except Error (α × Inventory) :=
  match outcome work inv with
  | (.ok a, inv') => .ok (a, inv')
  | (.error e, _) => .error e

/-- The inventory that work leaves if it succeeds. -/
def changed (work : InventoryM Unit) (inv : Inventory) : Except Error Inventory :=
  (work.made inv).map (·.2)

theorem changed_discard (work : InventoryM α) (inv : Inventory) :
    changed (discard work) inv = (work.made inv).map (·.2) := by
  rw [changed, made, made, outcome_discard_eq]
  rcases outcome work inv with ⟨_ | _, _⟩ <;> rfl

@[simp] theorem outcome_ofExcept (r : Except Error α) (inv : Inventory) :
    outcome (InventoryM.ofExcept r) inv = (r, inv) := by cases r <;> rfl

@[simp] theorem outcome_ask (question : Inventory → Except Error α) (inv : Inventory) :
    outcome (InventoryM.ask question) inv = (question inv, inv) := outcome_ofExcept _ inv

theorem still_ask (question : Inventory → Except Error α) : Still (InventoryM.ask question) := by
  intro inv
  rw [outcome_ask]

theorem outcome_eq_made {work : InventoryM α} (atomic : Atomic work) (inv : Inventory) :
    outcome work inv = match work.made inv with
      | .ok (a, inv') => (.ok a, inv')
      | .error e => (.error e, inv) := by
  have kept := atomic inv
  rw [made]
  rcases run : outcome work inv with ⟨e | a, inv'⟩
  · rw [run] at kept
    exact congrArg _ (kept e rfl)
  · rfl

theorem atomic_alterKey (name : String) (change : Key → Key) : Atomic (alterKey name change) :=
  .after (still_ask _) fun _ => ((Total.modify _).bind fun _ => .pure _).atomic

theorem atomic_insertKey (k : Key) : Atomic (insertKey k) :=
  .after still_get fun _ => .ite (.after (still_throw _) fun _ => (Total.modify _).atomic) (Total.modify _).atomic

theorem still_checkUnused (name : String) : Still (checkUnused name) := by
  intro inv
  rw [checkUnused, outcome_bind, outcome_get]
  dsimp only
  split
  · rfl
  rw [outcome_bind, outcome_get]
  dsimp only
  split <;> rfl

theorem atomic_removeKey (name : String) (force : Bool) : Atomic (removeKey name force) := by
  have dropping (k : Key) : Total (do
      modify fun inv : Inventory => { inv with deployments := inv.deployments.filter (·.key ≠ name) }
      modify fun inv => { inv with hosts := inv.hosts.map (Inventory.unlinkHost name) }
      modify fun inv => { inv with keys := inv.keys.map (Inventory.unlinkKey name) }
      modify fun inv => { inv with keys := inv.keys.eraseP (·.name = name) }
      return Inventory.unlinkKey name k : InventoryM Key) :=
    (Total.modify _).bind fun _ => (Total.modify _).bind fun _ => (Total.modify _).bind fun _ =>
      (Total.modify _).bind fun _ => .pure _
  exact .after (still_ask _) fun k =>
    .ite (.after (still_checkUnused name) fun _ => (dropping k).atomic) (dropping k).atomic

theorem atomic_insertHost (h : Host) : Atomic (insertHost h) := by
  have adds : Atomic (modify fun inv => { inv with hosts := inv.hosts ++ [h] } : InventoryM PUnit) :=
    (Total.modify _).atomic
  unfold insertHost
  cases h.identity with
  | none => exact .after still_get fun _ => .ite (.after (still_throw _) fun _ => adds) adds
  | some identity =>
    have resolves := Atomic.after (still_ask (·.key identity)) fun _ => adds
    exact .after still_get fun _ => .ite (.after (still_throw _) fun _ => resolves) resolves

theorem atomic_removeHost (label : String) : Atomic (removeHost label) :=
  .after (still_ask _) fun _ =>
    ((Total.modify _).bind fun _ => (Total.modify _).bind fun _ => .pure _).atomic

theorem atomic_recordDeployment (key host : String) (method : DeployMethod) (now : Time.Instant) :
    Atomic (recordDeployment key host method now) := by
  refine .after (still_ask _) fun _ => .after (still_ask _) fun _ => .after still_get fun inv => ?_
  split
  · exact (Total.modify _).atomic
  · exact (Total.modify _).atomic

theorem atomic_removeDeployment (key host : String) : Atomic (removeDeployment key host) :=
  .after (still_ask _) fun _ => ((Total.modify _).bind fun _ => .pure _).atomic

theorem atomic_markVerified (key host : String) (now : Time.Instant) : Atomic (markVerified key host now) :=
  .after (still_ask _) fun _ => (Total.modify _).atomic

end InventoryM

namespace Inventory

open Time

variable {inv inv' : Inventory} {name label key host : String}

def alterKey (inv : Inventory) (name : String) (change : Key → Key) : Except Error (Key × Inventory) :=
  (InventoryM.alterKey name change).made inv

def insertKey (inv : Inventory) (k : Key) : Except Error Inventory := (InventoryM.insertKey k).changed inv

def removeKey (inv : Inventory) (name : String) (force : Bool) : Except Error (Key × Inventory) :=
  (InventoryM.removeKey name force).made inv

def insertHost (inv : Inventory) (h : Host) : Except Error Inventory := (InventoryM.insertHost h).changed inv

def removeHost (inv : Inventory) (label : String) : Except Error (Host × Inventory) :=
  (InventoryM.removeHost label).made inv

def recordDeployment (inv : Inventory) (key host : String) (method : DeployMethod) (now : Instant) :
    Except Error Inventory :=
  (InventoryM.recordDeployment key host method now).changed inv

def removeDeployment (inv : Inventory) (key host : String) : Except Error (Deployment × Inventory) :=
  (InventoryM.removeDeployment key host).made inv

def markVerified (inv : Inventory) (key host : String) (now : Instant) : Except Error Inventory :=
  (InventoryM.markVerified key host now).changed inv

theorem alterKey_eq {change : Key → Key} : inv.alterKey name change = match inv.key name with
    | .ok k => .ok (change k, inv.changeKey name change)
    | .error e => .error e := by
  rw [alterKey, InventoryM.made, InventoryM.alterKey, outcome_bind, InventoryM.outcome_ask]
  cases inv.key name <;> rfl

/-- An alteration of a key on record is not refused. -/
theorem alterKey_eq_ok {change : Key → Key} {k : Key} (found : inv.findKey? name = some k) :
    inv.alterKey name change = .ok (change k, inv.changeKey name change) := by
  rw [alterKey_eq, key_eq_ok_iff.mpr found]

theorem insertKey_eq {k : Key} : inv.insertKey k = match inv.findKey? k.name with
    | some _ => .error (.keyExists k.name)
    | none => .ok { inv with keys := inv.keys ++ [k] } := by
  rw [insertKey, InventoryM.changed, InventoryM.made, InventoryM.insertKey, outcome_bind, outcome_get]
  dsimp only
  cases inv.findKey? k.name <;> rfl

/-- A key without its deployments and without any reference to its name. -/
def dropKey (inv : Inventory) (name : String) : Inventory :=
  { inv with
    keys := (inv.keys.eraseP (·.name = name)).map (unlinkKey name)
    hosts := inv.hosts.map (unlinkHost name)
    deployments := inv.deployments.filter (·.key ≠ name) }

/-- What keeps a key from being removed: first its deployments, then its hosts. -/
def useOf? (inv : Inventory) (name : String) : Option String :=
  if inv.hostNamesOf name ≠ [] then
    some ("deployed to " ++ ", ".intercalate (inv.hostNamesOf name))
  else if inv.hostsUsing name ≠ [] then
    some ("identity for " ++ ", ".intercalate ((inv.hostsUsing name).map (·.label)))
  else none

theorem outcome_checkUnused : outcome (InventoryM.checkUnused name) inv = match inv.useOf? name with
    | some reason => (.error (.keyInUse name reason), inv)
    | none => (.ok (), inv) := by
  rw [InventoryM.checkUnused, outcome_bind, outcome_get, useOf?]
  dsimp only
  split
  · rfl
  rw [outcome_bind, outcome_get]
  dsimp only
  split <;> rfl

/-- A key keeps its name when it is unlinked, so it may be taken away before or after. -/
theorem eraseP_map_unlinkKey (keys : List Key) :
    (keys.map (unlinkKey name)).eraseP (·.name = name) = (keys.eraseP (·.name = name)).map (unlinkKey name) := by
  rw [List.eraseP_map]
  rfl

theorem removeKey_eq {force : Bool} : inv.removeKey name force = match inv.key name with
    | .error e => .error e
    | .ok k => match if force then none else inv.useOf? name with
      | some reason => .error (.keyInUse name reason)
      | none => .ok (unlinkKey name k, inv.dropKey name) := by
  have dropped : dropKey inv name = { inv with
      keys := (inv.keys.map (unlinkKey name)).eraseP (·.name = name)
      hosts := inv.hosts.map (unlinkHost name)
      deployments := inv.deployments.filter (·.key ≠ name) } := by
    rw [eraseP_map_unlinkKey]
    rfl
  rw [removeKey, InventoryM.made, InventoryM.removeKey, outcome_bind, InventoryM.outcome_ask, dropped]
  cases inv.key name with
  | error e => rfl
  | ok k =>
    cases force with
    | true => rfl
    | false =>
      dsimp only
      rw [Bool.not_false, if_pos rfl, outcome_bind, outcome_checkUnused, if_neg (by decide)]
      cases inv.useOf? name <;> rfl

theorem insertHost_eq {h : Host} : inv.insertHost h = match inv.findHost? h.label with
    | some _ => .error (.hostExists h.label)
    | none => match h.identity.mapM inv.key with
      | .error e => .error e
      | .ok _ => .ok { inv with hosts := inv.hosts ++ [h] } := by
  rw [insertHost, InventoryM.changed, InventoryM.made, InventoryM.insertHost, outcome_bind, outcome_get]
  dsimp only
  cases inv.findHost? h.label with
  | some _ => rfl
  | none =>
    cases h.identity with
    | none => rfl
    | some identity =>
      have looked : (some identity).mapM inv.key = some <$> inv.key identity := rfl
      rw [looked, if_neg (by decide)]
      dsimp only
      rw [outcome_bind, InventoryM.outcome_ask]
      cases inv.key identity <;> rfl

theorem removeHost_eq : inv.removeHost label = match inv.host label with
    | .error e => .error e
    | .ok h => .ok (h, { inv with
        hosts := inv.hosts.eraseP (·.label = label)
        deployments := inv.deployments.filter (·.host ≠ label) }) := by
  rw [removeHost, InventoryM.made, InventoryM.removeHost, outcome_bind, InventoryM.outcome_ask]
  cases inv.host label <;> rfl

theorem recordDeployment_eq {method : DeployMethod} {now : Instant} :
    inv.recordDeployment key host method now = match inv.key key, inv.host host with
      | .error e, _ => .error e
      | .ok _, .error e => .error e
      | .ok _, .ok _ => match inv.deployment? key host with
        | some _ => .ok (inv.changeDeployment key host fun d =>
            { d with deployedAt := now, method := method, verifiedAt := none })
        | none => .ok { inv with deployments := inv.deployments ++ [⟨key, host, now, method, none⟩] } := by
  rw [recordDeployment, InventoryM.changed, InventoryM.made, InventoryM.recordDeployment, outcome_bind,
    InventoryM.outcome_ask]
  cases inv.key key with
  | error e => rfl
  | ok k =>
    dsimp only
    rw [outcome_bind, InventoryM.outcome_ask]
    cases inv.host host with
    | error e => rfl
    | ok h =>
      dsimp only
      rw [outcome_bind, outcome_get]
      dsimp only
      cases inv.deployment? key host <;> rfl

theorem removeDeployment_eq : inv.removeDeployment key host = match inv.deployment key host with
    | .error e => .error e
    | .ok d => .ok (d, { inv with deployments := inv.deployments.eraseP (·.joins key host) }) := by
  rw [removeDeployment, InventoryM.made, InventoryM.removeDeployment, outcome_bind, InventoryM.outcome_ask]
  cases inv.deployment key host <;> rfl

theorem markVerified_eq {now : Instant} : inv.markVerified key host now = match inv.deployment key host with
    | .error e => .error e
    | .ok _ => .ok (inv.changeDeployment key host fun d => { d with verifiedAt := some now }) := by
  rw [markVerified, InventoryM.changed, InventoryM.made, InventoryM.markVerified, outcome_bind,
    InventoryM.outcome_ask]
  cases inv.deployment key host <;> rfl

end Inventory

end Keyring

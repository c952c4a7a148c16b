import Keyring.Inventory.Basic

/-!
# Edits of the inventory

Records are added, changed and removed one at a time. What an edit has changed
when it fails stays changed, so an edit looks first and changes last.
-/

namespace Keyring

namespace Inventory

/-- The first record that fits, changed. -/
def changeFirst {α : Type} (fits : α → Bool) (change : α → α) : List α → List α
  | [] => []
  | a :: rest => if fits a then change a :: rest else a :: changeFirst fits change rest

def changeKey (inv : Inventory) (name : String) (change : Key → Key) : Inventory :=
  { inv with keys := changeFirst (·.name = name) change inv.keys }

def changeHost (inv : Inventory) (label : String) (change : Host → Host) : Inventory :=
  { inv with hosts := changeFirst (·.label = label) change inv.hosts }

def changeDeployment (inv : Inventory) (key host : String) (change : Deployment → Deployment) :
    Inventory :=
  { inv with deployments := changeFirst (·.joins key host) change inv.deployments }

def dropReference (name : String) (reference : Option String) : Option String :=
  if reference = some name then none else reference

/-- A key whose rotation is not linked to a name. -/
def unlinkKey (name : String) (k : Key) : Key :=
  { k with
    rotatedFrom := dropReference name k.rotatedFrom
    rotatedTo := dropReference name k.rotatedTo }

def unlinkHost (name : String) (h : Host) : Host :=
  { h with identity := dropReference name h.identity }

end Inventory

/-- Work on an inventory. -/
abbrev InventoryM := ExceptT Error (StateM Inventory)

namespace InventoryM

open Inventory Time

def ofExcept {α : Type} (r : Except Error α) : InventoryM α :=
  match r with
  | .ok a => pure a
  | .error e => throw e

def ask {α : Type} (question : Inventory → Except Error α) : InventoryM α := do
  ofExcept (question (← get))

/-- The key of a name changed, if it is on record, with the key as it is then. -/
def alterKey (name : String) (change : Key → Key) : InventoryM Key := do
  let k ← ask (·.key name)
  modify (·.changeKey name change)
  return change k

def insertKey (k : Key) : InventoryM Unit := do
  if ((← get).findKey? k.name).isSome then throw (.keyExists k.name)
  modify fun inv => { inv with keys := inv.keys ++ [k] }

/-- A key that is deployed, or that a host is logged in to with, stays. -/
def checkUnused (name : String) : InventoryM Unit := do
  let deployed := (← get).hostNamesOf name
  if deployed ≠ [] then
    throw (.keyInUse name ("deployed to " ++ ", ".intercalate deployed))
  let hosts := (← get).hostsUsing name
  if hosts ≠ [] then
    throw (.keyInUse name ("identity for " ++ ", ".intercalate (hosts.map (·.label))))

/-- A key is removed where nothing uses it, or with all that does when that is forced. -/
def removeKey (name : String) (force : Bool) : InventoryM Key := do
  let k ← ask (·.key name)
  if !force then checkUnused name
  modify fun inv => { inv with deployments := inv.deployments.filter (·.key ≠ name) }
  modify fun inv => { inv with hosts := inv.hosts.map (unlinkHost name) }
  modify fun inv => { inv with keys := inv.keys.map (unlinkKey name) }
  modify fun inv => { inv with keys := inv.keys.eraseP (·.name = name) }
  return unlinkKey name k

/-- A host is added once, and with a key on record only. -/
def insertHost (h : Host) : InventoryM Unit := do
  if ((← get).findHost? h.label).isSome then throw (.hostExists h.label)
  if let some identity := h.identity then
    let _ ← ask (·.key identity)
  modify fun inv => { inv with hosts := inv.hosts ++ [h] }

/-- A host is removed with every deployment on it. -/
def removeHost (label : String) : InventoryM Host := do
  let h ← ask (·.host label)
  modify fun inv => { inv with deployments := inv.deployments.filter (·.host ≠ label) }
  modify fun inv => { inv with hosts := inv.hosts.eraseP (·.label = label) }
  return h

/-- A deployment is on record once: it is refreshed and counts as unverified again. -/
def recordDeployment (key host : String) (method : DeployMethod) (now : Instant) : InventoryM Unit := do
  let _ ← ask (·.key key)
  let _ ← ask (·.host host)
  match (← get).deployment? key host with
  | some _ =>
    modify (·.changeDeployment key host fun d =>
      { d with deployedAt := now, method := method, verifiedAt := none })
  | none =>
    modify fun inv => { inv with deployments := inv.deployments ++ [⟨key, host, now, method, none⟩] }

def removeDeployment (key host : String) : InventoryM Deployment := do
  let d ← ask (·.deployment key host)
  modify fun inv => { inv with deployments := inv.deployments.eraseP (·.joins key host) }
  return d

def markVerified (key host : String) (now : Instant) : InventoryM Unit := do
  let _ ← ask (·.deployment key host)
  modify (·.changeDeployment key host fun d => { d with verifiedAt := some now })

end InventoryM

end Keyring

import Keyring.Inventory.Edit
import Keyring.Remote.Shell
import Keyring.World

/-!
# Keys on hosts

Hosts are tested, keys are put on them, looked for there and taken off again.
Each of these asks one tool once, and is recorded only if the tool succeeds.
-/

namespace Keyring.Remote

open Time

/-- The arguments of every login: nothing is asked, and the key is the host's own. -/
def loginArgs (inv : Inventory) (h : Host) (timeoutSecs : Nat) : List String :=
  ["-o", "BatchMode=yes", "-o", s!"ConnectTimeout={timeoutSecs}", "-o",
    "StrictHostKeyChecking=accept-new", "-p", toString h.port]
  ++ match inv.identityOf? h with
    | some k => ["-i", k.privateFile, "-o", "IdentitiesOnly=yes"]
    | none => []

def commandArgs (inv : Inventory) (h : Host) (timeoutSecs : Nat) (command : String) : List String :=
  loginArgs inv h timeoutSecs ++ [h.target, command]

/-- The arguments that install a key. The key to log in with is named unless it is the same. -/
def installArgs (k : Key) (h : Host) (auth : Option Key) : List String :=
  ["-i", k.publicFile, "-p", toString h.port]
  ++ (match auth.filter (·.name ≠ k.name) with
    | some a => ["-o", "IdentityFile=" ++ a.privateFile]
    | none => [])
  ++ [h.target]

structure ConnectionOutcome where
  host : String
  ok : Bool
  error : Option String
deriving DecidableEq, Repr

def ConnectionOutcome.data (o : ConnectionOutcome) : Data :=
  .record ([("host", .text o.host), ("ok", .flag o.ok)]
    ++ Data.optionalField "error" o.error .text)

/-- The outcome of a connection put on record. -/
def recordCheck (inv : Inventory) (label : String) (error : Option String) (now : Instant) :
    Inventory :=
  inv.changeHost label fun h => { h with
    lastChecked := some now
    lastCheckOk := some error.isNone
    lastCheckError := error }

/-- A host that cannot be reached is an outcome, not an error. -/
def testConnection (label : String) (timeoutSecs : Nat) (now : Instant) : Op ConnectionOutcome := do
  let inv ← Op.inventory
  let h ← Op.ofExcept (inv.host label)
  let output ← Op.call Call.login (commandArgs inv h timeoutSecs "true") none
  let error := if output.success then none else some output.errorMessage
  Op.edit do
    let _ ← InventoryM.ask (·.host label)
    modify (recordCheck · label error now)
  return ⟨label, error.isNone, error⟩

/-- The key to log in with while a key is installed: the one that is named, else the host's. -/
def authKey (inv : Inventory) (h : Host) (auth : Option String) : Except Error (Option Key) :=
  match auth with
  | some name => do return some (← inv.key name)
  | none => .ok (inv.identityOf? h)

def deploy (key label : String) (auth : Option String) (now : Instant) : Op Unit := do
  let inv ← Op.inventory
  let k ← Op.ofExcept (inv.activeKey key)
  let h ← Op.ofExcept (inv.host label)
  let a ← Op.ofExcept (authKey inv h auth)
  let output ← Op.call Call.keyInstaller (installArgs k h a) none
  if !output.success then throw (.deployFailed s!"{key} → {label}: {output.errorMessage}")
  Op.edit (InventoryM.recordDeployment key label .copied now)

/-- A key recorded that was put on a host by hand. -/
def markDeployed (key label : String) (now : Instant) : Op Unit :=
  Op.edit do
    let _ ← InventoryM.ask (·.activeKey key)
    InventoryM.recordDeployment key label .manual now

/-- A key and a host with a deployment on record. -/
def deployed (inv : Inventory) (key label : String) : Except Error (Key × Host) := do
  let k ← inv.key key
  let h ← inv.host label
  let _ ← inv.deployment key label
  return (k, h)

/-- Whether a key is still on a host; `grep` ends with 1 where it is not. -/
def verify (key label : String) (timeoutSecs : Nat) (now : Instant) : Op Bool := do
  let inv ← Op.inventory
  let (k, h) ← Op.ofExcept (deployed inv key label)
  let output ← Op.call Call.login (commandArgs inv h timeoutSecs (searchScript k.blob)) none
  match output.status with
  | some 0 =>
    Op.edit (InventoryM.markVerified key label now)
    return true
  | some 1 => return false
  | _ => throw (.toolFailed Call.login output.errorMessage)

/-- A key taken off a host, and the deployment off the record. -/
def revoke (key label : String) (timeoutSecs : Nat) : Op Unit := do
  let inv ← Op.inventory
  let (k, h) ← Op.ofExcept (deployed inv key label)
  let output ← Op.call Call.login (commandArgs inv h timeoutSecs (removalScript k.blob)) none
  if !output.success then throw (.revokeFailed s!"{key} ← {label}: {output.errorMessage}")
  let _ ← Op.edit (InventoryM.removeDeployment key label)

end Keyring.Remote

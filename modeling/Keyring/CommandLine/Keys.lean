import Keyring.CommandLine.Console
import Keyring.CommandLine.Table
import Keyring.Lifecycle.Import
import Keyring.Lifecycle.Retire
import Keyring.Lifecycle.Rotate
import Keyring.Remote.Deploy

/-!
# Commands on keys
-/

namespace Keyring.CommandLine

open Time

/-- The algorithm that is asked for, else the one of the settings. -/
def wishedAlgorithm (settings : Settings) (keyType : Option String) : Except Error Algorithm :=
  match keyType with
  | some s => Algorithm.ofText s
  | none => .ok settings.defaultAlgorithm

def newKeyLines (done : String) (k : Key) : List String :=
  [done ++ ": " ++ k.name, "  fingerprint: " ++ k.fingerprint, "  private:     " ++ k.privateFile,
    "  public:      " ++ k.publicFile]
  ++ match k.expiresAt with
    | some t => ["  expires:     " ++ t.dateText]
    | none => []

def keyGenerate (setting : Setting) (wish : KeyWish) : Cli Unit := do
  let settings ← loadSettings setting
  let algorithm ← ofExcept (wishedAlgorithm settings wish.keyType)
  let req : Lifecycle.NewKey :=
    { name := wish.name
      algorithm := algorithm
      bits := wish.bits
      comment := wish.comment
      ttlDays := wish.ttlDays.or settings.defaultTtlDays
      passphrase := wish.passphrase
      tags := wish.tags }
  let k ← withInventory setting (performNow (Lifecycle.generate setting.vault req))
  report setting k.data (newKeyLines "Generated" k)

def keyImport (setting : Setting) (req : Lifecycle.ImportedKey) : Cli Unit := do
  let k ← withInventory setting (performNow (Lifecycle.importKey setting.vault req))
  report setting k.data (newKeyLines "Imported" k)

def keyRow (inv : Inventory) (now : Instant) (warnDays : Nat) (k : Key) : List String :=
  [k.name, k.algorithm.name, orDash (k.bits.map toString), k.status.name,
    (k.expiry now warnDays).text, toString (inv.deploymentsOfKey k.name).length, k.fingerprint]

def keyListLines (inv : Inventory) (now : Instant) (warnDays : Nat) : List String :=
  if inv.keys = [] then ["no keys", "", "Generate one:  ssh-vault key generate <name>"]
  else
    tableLines ["NAME", "TYPE", "BITS", "STATUS", "EXPIRES", "HOSTS", "FINGERPRINT"]
      (inv.keys.map (keyRow inv now warnDays))

def keyList (setting : Setting) : Cli Unit := do
  let settings ← loadSettings setting
  let _ ← openInventory setting
  let inv ← inventory
  report setting (.list (inv.keys.map Key.data))
    (keyListLines inv (← now) settings.expiryWarningDays)

/-- The keys before and after this one in a rotation. -/
def rotationLines (k : Key) : List String :=
  if k.rotatedFrom = none ∧ k.rotatedTo = none then []
  else ["Rotation:    " ++ orDash k.rotatedFrom ++ " -> " ++ k.name ++ " -> " ++ orDash k.rotatedTo]

def deploymentLines (header : String) (name : Deployment → String) (ds : List Deployment) :
    List String :=
  if ds = [] then []
  else
    "" :: tableLines [header, "METHOD", "DEPLOYED", "VERIFIED"]
      (ds.map fun d => [name d, d.method.text, dateCell (some d.deployedAt), dateCell d.verifiedAt])

def keyLines (k : Key) (expiry : Expiry) (deployments : List Deployment) : List String :=
  let size := match k.bits with
    | some b => s!" ({b} bits)"
    | none => ""
  ["Key:         " ++ k.name, "Status:      " ++ k.status.name,
    "Algorithm:   " ++ k.algorithm.name ++ size, "Fingerprint: " ++ k.fingerprint,
    "Comment:     " ++ k.comment, "Private:     " ++ k.privateFile, "Public:      " ++ k.publicFile,
    "Created:     " ++ k.createdAt.dateText, "Expiry:      " ++ expiry.text,
    "Managed:     " ++ if k.managed then "yes" else "no"]
  ++ rotationLines k
  ++ (if k.tags = [] then [] else ["Tags:        " ++ ", ".intercalate k.tags])
  ++ deploymentLines "HOST" (·.host) deployments

def keyShow (setting : Setting) (name : String) : Cli Unit := do
  let settings ← loadSettings setting
  let _ ← openInventory setting
  let inv ← inventory
  let k ← ofExcept (inv.key name)
  let deployments := inv.deploymentsOfKey name
  let expiry := k.expiry (← now) settings.expiryWarningDays
  reportSorted setting
    (.record [("key", k.data), ("expiry", expiry.data),
      ("deployments", .list (deployments.map Deployment.data)),
      ("identity_for", Data.texts ((inv.hostsUsing name).map (·.label)))])
    (keyLines k expiry deployments)

/-- How a host fared when the new key was put there in place of the old one. -/
structure Redeployment where
  host : String
  deployed : Bool
  oldRevoked : Bool
  error : Option String
deriving DecidableEq, Repr

def Redeployment.data (r : Redeployment) : Data :=
  .record ([("host", .text r.host), ("deployed", .flag r.deployed),
    ("old_revoked", .flag r.oldRevoked)] ++ Data.optionalField "error" r.error .text)

def Redeployment.line (r : Redeployment) : String :=
  match r.error with
  | none => if r.oldRevoked then s!"  {r.host}: deployed, old key removed" else s!"  {r.host}: deployed"
  | some e => s!"  {r.host}: FAILED: {e}"

/-- The new key put on a host, logged in to with the old one; only then is the old one removed. -/
def redeploy (timeoutSecs : Nat) (old new : String) (revokeOld : Bool) (host : String) :
    Cli Redeployment := do
  match ← attempt (Remote.deploy new host (some old) (← now)) with
  | .error e => return ⟨host, false, false, some e.message⟩
  | .ok () =>
    if !revokeOld then return ⟨host, true, false, none⟩
    match ← attempt (Remote.revoke old host timeoutSecs) with
    | .ok () => return ⟨host, true, true, none⟩
    | .error e => return ⟨host, true, false, some ("old key not removed: " ++ e.message)⟩

def rotationReport (o : Lifecycle.RotationOutcome) (deployed : Bool) (results : List Redeployment) :
    List String :=
  ["Rotated: " ++ o.old ++ " -> " ++ o.new.name, "  fingerprint: " ++ o.new.fingerprint]
  ++ (if o.identitiesSwitched = [] then []
    else ["  identity switched on: " ++ ", ".intercalate o.identitiesSwitched,
      "  run \x60ssh-vault sync-config\x60 to update ssh_config"])
  ++ (if deployed then []
    else underHeading "Old key still deployed on:"
      (o.hostsToRedeploy.map fun h => s!"  {h}    (ssh-vault deploy {o.new.name} {h})"))
  ++ results.map Redeployment.line

/-- A key that was replaced, and what is needed to go on: the file of the inventory and how long a
host is waited for. -/
structure RotationUnderWay where
  path : Path
  timeoutSecs : Nat
  outcome : Lifecycle.RotationOutcome
deriving DecidableEq, Repr

/-- A key replaced, and the inventory kept. -/
def startRotation (setting : Setting) (wish : RotationWish) : Cli RotationUnderWay := do
  let algorithm ← ofExcept (wish.keyType.mapM Algorithm.ofText)
  let settings ← loadSettings setting
  let path ← openInventory setting
  let req : Lifecycle.Rotation :=
    { name := wish.name
      newName := wish.newName
      algorithm := algorithm
      bits := wish.bits
      ttlDays := wish.ttlDays
      passphrase := wish.passphrase }
  let o ← performNow (Lifecycle.rotate setting.vault req)
  saveInventory path
  return ⟨path, settings.connectTimeoutSecs, o⟩

/-- The new key put on one host more, and the inventory kept. -/
def redeployNext (u : RotationUnderWay) (revokeOld : Bool) (host : String) : Cli Redeployment := do
  let r ← redeploy u.timeoutSecs u.outcome.old u.outcome.new.name revokeOld host
  saveInventory u.path
  return r

/-- A key replaced, and the new one put on the hosts of the old one where that is asked for. The
inventory is kept after each step. -/
def keyRotate (setting : Setting) (wish : RotationWish) : Cli Unit := do
  let u ← startRotation setting wish
  let hosts := if wish.deploy then u.outcome.hostsToRedeploy else []
  let results ← hosts.mapM (redeployNext u wish.revokeOld)
  let failed := results.countP (·.error.isSome)
  reportSorted setting
    (.record [("rotation", u.outcome.data), ("redeploy", .list (results.map Redeployment.data))])
    (rotationReport u.outcome wish.deploy results)
  if 0 < failed then fail s!"{failed} host(s) failed to redeploy"

def keyRevoke (setting : Setting) (name : String) : Cli Unit := do
  let hosts ← withInventory setting (perform (Lifecycle.revokeKey name))
  reportSorted setting
    (.record [("key", .text name), ("still_deployed_on", Data.texts hosts)])
    (("Revoked: " ++ name) :: underHeading "Still deployed on:"
      (hosts.map fun h => s!"  {h}    (ssh-vault revoke {name} {h})"))

def keyExpire (setting : Setting) (name : String) (ttlDays : Option Nat) : Cli Unit := do
  let expiresAt ← withInventory setting (performNow (Lifecycle.setExpiry name ttlDays))
  reportSorted setting
    (.record [("key", .text name), ("expires_at", Data.orNull Data.ofInstant expiresAt)])
    [match expiresAt with
      | some t => name ++ " expires " ++ t.minuteText
      | none => name ++ " no longer expires"]

def keyRemove (setting : Setting) (name : String) (force deleteFiles : Bool) : Cli Unit := do
  let k ← withInventory setting (perform (Lifecycle.removeKey setting.vault name force deleteFiles))
  report setting k.data ["Removed: " ++ k.name]

end Keyring.CommandLine

import Keyring.CommandLine.Keys

/-!
# Commands on hosts and deployments
-/

namespace Keyring.CommandLine

open Time

def hostAdd (setting : Setting) (req : Remote.NewHost) : Cli Unit := do
  let h ← withInventory setting (performNow (Remote.addHost req setting.user))
  report setting h.data [s!"Added host: {h.label} ({h.target}:{h.port})"]

def hostUpdate (setting : Setting) (label : String) (change : Remote.HostChange) : Cli Unit := do
  let h ← withInventory setting (perform (Remote.updateHost label change))
  report setting h.data ["Updated host: " ++ h.label]

def hostRemove (setting : Setting) (label : String) : Cli Unit := do
  let h ← withInventory setting (perform (Remote.removeHost label))
  report setting h.data ["Removed host: " ++ h.label]

def checkText : Option Bool → String
  | some true => "ok"
  | some false => "unreachable"
  | none => "-"

def hostRow (inv : Inventory) (h : Host) : List String :=
  [h.label, h.target, toString h.port, orDash h.identity,
    toString (inv.deploymentsOnHost h.label).length, checkText h.lastCheckOk]

def hostListLines (inv : Inventory) : List String :=
  if inv.hosts = [] then ["no hosts", "", "Add one:  ssh-vault host add <alias> --hostname <host>"]
  else
    tableLines ["ALIAS", "TARGET", "PORT", "IDENTITY", "KEYS", "LAST CHECK"]
      (inv.hosts.map (hostRow inv))

def hostList (setting : Setting) : Cli Unit := do
  let _ ← openInventory setting
  let inv ← inventory
  report setting (.list (inv.hosts.map Host.data)) (hostListLines inv)

def hostLines (h : Host) (deployments : List Deployment) : List String :=
  ["Host:       " ++ h.label, "Target:     " ++ h.target, s!"Port:       {h.port}",
    "Identity:   " ++ orDash h.identity, "Added:      " ++ h.addedAt.dateText,
    "Last check: " ++ checkText h.lastCheckOk ++ " (" ++ dateCell h.lastChecked ++ ")"]
  ++ (match h.lastCheckError with
    | some e => ["  error:    " ++ e]
    | none => [])
  ++ (if h.tags = [] then [] else ["Tags:       " ++ ", ".intercalate h.tags])
  ++ deploymentLines "KEY" (·.key) deployments

def hostShow (setting : Setting) (label : String) : Cli Unit := do
  let _ ← openInventory setting
  let inv ← inventory
  let h ← ofExcept (inv.host label)
  let deployments := inv.deploymentsOnHost label
  reportSorted setting
    (.record [("host", h.data), ("deployments", .list (deployments.map Deployment.data))])
    (hostLines h deployments)

def outcomeLine (o : Remote.ConnectionOutcome) : String :=
  match o.error with
  | none => o.host ++ ": ok"
  | some e => o.host ++ ": unreachable: " ++ e

/-- A line that is said at once where lines are what is reported. -/
def sayAtOnce (setting : Setting) (line : String) : Cli Unit :=
  if setting.json then pure () else say line

/-- One host tested, or all of them; the inventory is kept when all were tried. -/
def hostTest (setting : Setting) (label : Option String) : Cli Unit := do
  let settings ← loadSettings setting
  let path ← openInventory setting
  let all := (← inventory).hosts.map (·.label)
  let outcomes ← ((label.map ([·])).getD all).mapM fun a => do
    let o ← performNow (Remote.testConnection a settings.connectTimeoutSecs)
    sayAtOnce setting (outcomeLine o)
    return o
  saveInventory path
  report setting (.list (outcomes.map (·.data))) []
  let failed := outcomes.countP (!·.ok)
  if 0 < failed then fail s!"{failed} host(s) unreachable"

/-- How the deployment on a host went. -/
structure DeployResult where
  host : String
  error : Option String
deriving DecidableEq, Repr

def DeployResult.ok (r : DeployResult) : Bool := r.error.isNone

def DeployResult.data (r : DeployResult) : Data :=
  .record ([("host", .text r.host), ("ok", .flag r.ok)] ++ Data.optionalField "error" r.error .text)

def DeployResult.line (manual : Bool) (r : DeployResult) : String :=
  match r.error with
  | none => r.host ++ if manual then ": recorded (manual)" else ": deployed"
  | some e => r.host ++ ": FAILED: " ++ e

/-- A key put on a host, or recorded as put there by hand. -/
def deployOne (key : String) (manual : Bool) (host : String) (now : Instant) : Op Unit :=
  if manual then Remote.markDeployed key host now else Remote.deploy key host none now

/-- A key put on some hosts, one after the other. Each has a time of its own, and the inventory is kept
after each, so that a later failure loses nothing. -/
def deploy (setting : Setting) (key : String) (hosts : List String) (manual : Bool) : Cli Unit := do
  let path ← openInventory setting
  let _ ← ofExcept ((← inventory).activeKey key)
  let results ← hosts.mapM fun host => do
    let outcome ← attempt (deployOne key manual host (← now))
    saveInventory path
    let r : DeployResult := ⟨host, match outcome with
      | .ok () => none
      | .error e => some e.message⟩
    sayAtOnce setting (r.line manual)
    return r
  reportSorted setting
    (.record [("key", .text key), ("results", .list (results.map DeployResult.data))]) []
  let failed := results.countP (!·.ok)
  if 0 < failed then fail s!"deploy failed on {failed} of {results.length} host(s)"

/-- Whether a key is still on a host; that it is not is a failure. -/
def verify (setting : Setting) (key host : String) : Cli Unit := do
  let settings ← loadSettings setting
  let path ← openInventory setting
  let present ← performNow (Remote.verify key host settings.connectTimeoutSecs)
  if present then saveInventory path
  reportSorted setting
    (.record [("key", .text key), ("host", .text host), ("present", .flag present)])
    (if present then [key ++ " is authorized on " ++ host] else [])
  if !present then
    fail (s!"{key} is recorded as deployed on {host} but missing from its authorized_keys\n"
      ++ s!"Redeploy with: ssh-vault deploy {key} {host}")

def revoke (setting : Setting) (key host : String) : Cli Unit := do
  let settings ← loadSettings setting
  let path ← openInventory setting
  perform (Remote.revoke key host settings.connectTimeoutSecs)
  saveInventory path
  reportSorted setting
    (.record [("key", .text key), ("host", .text host), ("revoked", .flag true)])
    ["Removed " ++ key ++ " from " ++ host]

end Keyring.CommandLine

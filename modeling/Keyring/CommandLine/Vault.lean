import Keyring.Audit
import Keyring.CommandLine.Console
import Keyring.CommandLine.Table
import Keyring.Inventory.Check
import Keyring.Inventory.Summary
import Keyring.Managed.Sync

/-!
# Commands on the whole vault

Setting it up, its state, its settings, and the ssh configuration.
-/

namespace Keyring.CommandLine

/-- A directory of the vault made, open to its user only; its path if it was not there. -/
def prepareDirectory (path : Path) : Cli (List String) := do
  let isNew := !(← disk).isDirectory path
  performFor ("failed to create " ++ path) (Op.onDisk (Disk.ensureDirectory path))
  perform (Op.onDisk (Disk.setMode path 0o700))
  return if isNew then [path] else []

def prepareSettings (setting : Setting) : Cli (List String) := do
  let path := Layout.settingsFile setting.vault
  if (← disk).exists_ path then return []
  performFor "failed to write config.yaml" (Store.saveSettings .initial setting.vault)
  return [path]

def prepareInventory (setting : Setting) : Cli (Path × List String) := do
  let path ← openInventory setting
  if (← disk).exists_ path then return (path, [])
  keepInventory path "failed to write inventory"
  return (path, [path])

/-- What is missing of a vault is made; what is there is kept. -/
def setUp (setting : Setting) : Cli Unit := do
  let vaultDir ← prepareDirectory setting.vault
  let keysDir ← prepareDirectory (Layout.keysDir setting.vault)
  let settings ← prepareSettings setting
  let (path, inventory) ← prepareInventory setting
  let created := vaultDir ++ keysDir ++ settings ++ inventory
  reportSorted setting
    (.record [("vault_dir", .text setting.vault), ("inventory", .text path),
      ("created", Data.texts created)])
    (["Vault: " ++ setting.vault] ++ (if created = [] then ["  already initialized"] else [])
      ++ created.map ("  created: " ++ ·))

/-- The active keys that have expired or are about to, in the order of the inventory. -/
def keysToRenew (inv : Inventory) (now : Time.Instant) (warnDays : Nat) : List (String × Expiry) :=
  (inv.activeKeys.map fun k => (k.name, k.expiry now warnDays)).filter fun (_, e) =>
    match e with
    | .expiring _ | .expired _ => true
    | .never | .valid _ => false

def renewalLine (name : String) : Expiry → List String
  | .expiring days => [s!"  {name}: expires in {days} day(s)"]
  | .expired days => [s!"  {name}: expired {days} day(s) ago"]
  | .never | .valid _ => []

def statusLines (setting : Setting) (path : Path) (present : Bool) (s : InventorySummary)
    (renew : List (String × Expiry)) (problems : List String) : List String :=
  ["Vault:     " ++ setting.vault, "Inventory: " ++ path]
  ++ if !present then ["", "Not initialized. Run: ssh-vault init"]
    else
      ["", s!"Keys:        {s.keysActive} active, {s.keysRotated} rotated, {s.keysRevoked} revoked",
        s!"Expiry:      {s.keysExpiring} expiring, {s.keysExpired} expired",
        s!"Hosts:       {s.hosts} ({s.hostsUnreachable} unreachable at last check)",
        s!"Deployments: {s.deployments}"]
      ++ underHeading "Needs attention:" (renew.flatMap fun (name, e) => renewalLine name e)
      ++ underHeading "Inventory problems:" (indented problems)

def status (setting : Setting) : Cli Unit := do
  let settings ← loadSettings setting
  let path ← openInventory setting
  let inv ← inventory
  let present := (← disk).exists_ path
  let t ← now
  let summary := inv.summary t settings.expiryWarningDays
  let renew := keysToRenew inv t settings.expiryWarningDays
  reportSorted setting
    (.record [("vault_dir", .text setting.vault), ("inventory", .text path),
      ("initialized", .flag present), ("summary", summary.data),
      ("expiry", .list (renew.map fun (name, e) =>
        .record [("key", .text name), ("expiry", e.data)])),
      ("problems", Data.texts inv.check)])
    (statusLines setting path present summary renew inv.check)

def auditLines (r : Audit.Report) : List String :=
  if r.findings = [] then ["No findings."]
  else
    tableLines ["SEVERITY", "CODE", "SUBJECT", "MESSAGE"]
      (r.findings.map fun f => [f.severity.name, f.rule.name, f.subject, f.message])
    ++ ["", s!"{r.count .critical} critical, {r.count .warning} warning, {r.count .info} info"]

def audit (setting : Setting) (strict noFiles : Bool) : Cli Unit := do
  let settings ← loadSettings setting
  let _ ← openInventory setting
  let d ← disk
  let files := if noFiles then none else some d
  let r := Audit.report (← inventory) (.ofSettings settings files) (← now)
  report setting r.data (auditLines r)
  if strict && r.hasCritical then
    fail s!"audit found {r.count .critical} critical finding(s)"

def configShow (setting : Setting) : Cli Unit := do
  let settings ← loadSettings setting
  let path ← ofExcept (sshConfigPath setting settings)
  if setting.json then
    say (Json.prettyText (Data.sorted
      (.record [("config", settings.data), ("effective_ssh_config", .text path)])))
  else
    print settings.text
    say ("# ssh_config in effect: " ++ path)

def configValidate (setting : Setting) : Cli Unit := do
  let settings ← loadSettings setting
  let warnings := settings.warnings
  reportSorted setting (.record [("warnings", .list (warnings.map (·.data)))])
    (if warnings = [] then ["Config is valid. No warnings."]
      else warnings.map fun w => "[" ++ w.level.name ++ "] " ++ w.message)
  if warnings.any (·.level = .error) then fail "config validation found errors"

def configSet (setting : Setting) (field value : String) : Cli Unit := do
  let (answer, settings) := (Settings.set field value).run.run (← loadSettings setting)
  ofExcept answer
  performFor "failed to write config.yaml" (Store.saveSettings settings setting.vault)
  report setting settings.data ["Set " ++ field ++ " = " ++ value]
  if !setting.json then
    (settings.warnings.filter (·.level = .error)).forM fun w => complain ("[error] " ++ w.message)

def syncedLines (o : Managed.Outcome) : List String :=
  if o.changed then
    ("Updated: " ++ o.path) :: (match o.backup with
      | some b => ["  backup: " ++ b]
      | none => [])
  else ["Up to date: " ++ o.path]

def tellSynced (o : Managed.Outcome) : Cli Unit := do
  if o.dryRun then
    print o.content
    let negation := if o.changed then "" else "not "
    complain ("\n(dry run: " ++ o.path ++ " would " ++ negation ++ "change)")
  else (syncedLines o).forM say
  if o.conflicts ≠ [] then
    complain ("warning: also declared outside the managed section (first match wins in ssh): "
      ++ ", ".intercalate o.conflicts)

/-- The managed section written, or taken out. -/
def syncConfig (setting : Setting) (dryRun remove : Bool) : Cli Unit := do
  let settings ← loadSettings setting
  let path ← ofExcept (sshConfigPath setting settings)
  let doing := "failed to update " ++ path
  let o ←
    if remove then performFor doing (Managed.removeSection path dryRun)
    else do
      let _ ← openInventory setting
      performFor doing (Managed.sync path dryRun)
  if setting.json then say (Json.prettyText o.data) else tellSynced o

end Keyring.CommandLine

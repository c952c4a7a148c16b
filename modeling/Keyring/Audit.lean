import Keyring.Disk.Basic
import Keyring.Inventory.Check
import Keyring.Settings

/-!
# Audit

The rules that an inventory should keep. Each breach is a finding; the report
lists them by severity, subject and rule.
-/

namespace Keyring.Audit

open Time

inductive Severity where
  | info
  | warning
  | critical
deriving DecidableEq, Repr

namespace Severity

def name : Severity → String
  | info => "info"
  | warning => "warning"
  | critical => "critical"

/-- The worse, the higher. -/
def rank : Severity → Nat
  | info => 0
  | warning => 1
  | critical => 2

end Severity

inductive Rule where
  | keyExpired
  | keyExpiring
  | noExpiry
  | keyTooOld
  | weakAlgorithm
  | weakKeySize
  | missingKeyFile
  | insecurePermissions
  | revokedKeyDeployed
  | rotatedKeyDeployed
  | revokedIdentity
  | unusedKey
  | hostUnreachable
  | hostWithoutIdentity
  | inventoryInconsistent
deriving DecidableEq, Repr

namespace Rule

def name : Rule → String
  | keyExpired => "key_expired"
  | keyExpiring => "key_expiring"
  | noExpiry => "no_expiry"
  | keyTooOld => "key_too_old"
  | weakAlgorithm => "weak_algorithm"
  | weakKeySize => "weak_key_size"
  | missingKeyFile => "missing_key_file"
  | insecurePermissions => "insecure_permissions"
  | revokedKeyDeployed => "revoked_key_deployed"
  | rotatedKeyDeployed => "rotated_key_deployed"
  | revokedIdentity => "revoked_identity"
  | unusedKey => "unused_key"
  | hostUnreachable => "host_unreachable"
  | hostWithoutIdentity => "host_without_identity"
  | inventoryInconsistent => "inventory_inconsistent"

def all : List Rule :=
  [keyExpired, keyExpiring, noExpiry, keyTooOld, weakAlgorithm, weakKeySize, missingKeyFile,
    insecurePermissions, revokedKeyDeployed, rotatedKeyDeployed, revokedIdentity, unusedKey,
    hostUnreachable, hostWithoutIdentity, inventoryInconsistent]

end Rule

structure Finding where
  severity : Severity
  rule : Rule
  /-- The name of a key, the alias of a host, or `inventory`. -/
  subject : String
  message : String
deriving DecidableEq, Repr

def Finding.data (f : Finding) : Data :=
  .record [("severity", .text f.severity.name), ("code", .text f.rule.name),
    ("subject", .text f.subject), ("message", .text f.message)]

structure Policy where
  expiryWarningDays : Nat
  maxKeyAgeDays : Nat
  minRsaBits : Nat
  /-- The disk that key files are looked for on; `none` for an inventory of another machine. -/
  files : Option Disk

def Policy.ofSettings (s : Settings) (files : Option Disk) : Policy :=
  ⟨s.expiryWarningDays, s.maxKeyAgeDays, s.minRsaBits, files⟩

/-- A key that is no longer used but is still let in somewhere. -/
def deployedFindings (inv : Inventory) (k : Key) : List Finding :=
  let hosts := inv.hostNamesOf k.name
  let list := ", ".intercalate hosts
  if hosts = [] then []
  else match k.status with
    | .revoked =>
      [⟨.critical, .revokedKeyDeployed, k.name, "revoked key still deployed to " ++ list⟩]
    | .rotated =>
      let successor := k.rotatedTo.getD "?"
      [⟨.warning, .rotatedKeyDeployed, k.name,
        s!"rotated to '{successor}' but still deployed to {list}"⟩]
    | .active => []

def expiryFindings (p : Policy) (now : Instant) (k : Key) : List Finding :=
  match k.expiry now p.expiryWarningDays with
  | .expired days => [⟨.critical, .keyExpired, k.name, s!"expired {days} day(s) ago"⟩]
  | .expiring days => [⟨.warning, .keyExpiring, k.name, s!"expires in {days} day(s)"⟩]
  | .never => [⟨.info, .noExpiry, k.name, "no expiry set"⟩]
  | .valid _ => []

def ageFindings (p : Policy) (now : Instant) (k : Key) : List Finding :=
  let age := k.ageDays now
  if (p.maxKeyAgeDays : Int) < age then
    [⟨.warning, .keyTooOld, k.name,
      s!"created {age} days ago (limit {p.maxKeyAgeDays} days); rotate it"⟩]
  else []

def strengthFindings (p : Policy) (k : Key) : List Finding :=
  match k.algorithm, k.bits with
  | .dsa, _ => [⟨.critical, .weakAlgorithm, k.name, "dsa keys are disabled by modern OpenSSH"⟩]
  | .rsa, some bits =>
    if bits < Algorithm.rsaFloorBits then
      [⟨.critical, .weakAlgorithm, k.name,
        s!"rsa-{bits} is below the {Algorithm.rsaFloorBits}-bit floor"⟩]
    else if bits < p.minRsaBits then
      [⟨.warning, .weakKeySize, k.name, s!"rsa-{bits} is below the configured {p.minRsaBits} bits"⟩]
    else []
  | _, _ => []

def unusedFindings (inv : Inventory) (k : Key) : List Finding :=
  if inv.hostNamesOf k.name = [] ∧ inv.hostsUsing k.name = [] then
    [⟨.info, .unusedKey, k.name, "not deployed anywhere and not used as a host identity"⟩]
  else []

def missingFileFindings (d : Disk) (k : Key) : List Finding :=
  [("private", k.privateFile), ("public", k.publicFile)].flatMap fun (label, file) =>
    if d.exists_ file then []
    else [⟨.critical, .missingKeyFile, k.name, s!"{label} key file missing: {file}"⟩]

/-- Nobody but its owner may use the private file of a key. -/
def permissionFindings (d : Disk) (k : Key) : List Finding :=
  match d.mode k.privateFile with
  | .ok mode =>
    if mode % 0o100 ≠ 0 then
      [⟨.critical, .insecurePermissions, k.name,
        s!"private key {k.privateFile} has mode {Text.octalText mode}; expected 600"⟩]
    else []
  | .error _ => []

def fileFindings (p : Policy) (k : Key) : List Finding :=
  match p.files with
  | some d => missingFileFindings d k ++ permissionFindings d k
  | none => []

/-- The findings on a key; most rules are for active keys only. -/
def keyFindings (inv : Inventory) (p : Policy) (now : Instant) (k : Key) : List Finding :=
  deployedFindings inv k ++
    if k.isActive then
      expiryFindings p now k ++ ageFindings p now k ++ strengthFindings p k ++ unusedFindings inv k
        ++ fileFindings p k
    else []

def reachFindings (h : Host) : List Finding :=
  if h.lastCheckOk = some false then
    let detail := match h.lastCheckError with
      | some e => ": " ++ e
      | none => ""
    [⟨.warning, .hostUnreachable, h.label, "last connection test failed" ++ detail⟩]
  else []

/-- A key that is not there is left to the check for consistency. -/
def identityFindings (inv : Inventory) (h : Host) : List Finding :=
  match h.identity, inv.identityOf? h with
  | none, _ =>
    [⟨.info, .hostWithoutIdentity, h.label, "no identity key; ssh falls back to its defaults"⟩]
  | some _, some k =>
    if k.isActive then []
    else [⟨.warning, .revokedIdentity, h.label, s!"identity key '{k.name}' is {k.status.name}"⟩]
  | some _, none => []

def hostFindings (inv : Inventory) (h : Host) : List Finding :=
  reachFindings h ++ identityFindings inv h

/-- All findings, in the order of the inventory. -/
def findings (inv : Inventory) (p : Policy) (now : Instant) : List Finding :=
  inv.check.map (fun problem => ⟨.critical, .inventoryInconsistent, "inventory", problem⟩)
    ++ inv.keys.flatMap (keyFindings inv p now) ++ inv.hosts.flatMap (hostFindings inv)

/-- Worse findings come first, then those on an earlier subject, then those by an earlier rule. -/
def Finding.precedes (a b : Finding) : Bool :=
  if a.severity.rank ≠ b.severity.rank then b.severity.rank < a.severity.rank
  else if a.subject ≠ b.subject then a.subject < b.subject
  else a.rule.name ≤ b.rule.name

structure Report where
  generatedAt : Instant
  findings : List Finding

namespace Report

def count (r : Report) (s : Severity) : Nat := r.findings.countP (·.severity = s)

def hasCritical (r : Report) : Bool := 0 < r.count .critical

def byRule (r : Report) (rule : Rule) : List Finding := r.findings.filter (·.rule = rule)

def summaryData (r : Report) : Data :=
  .record [("critical", Data.ofNat (r.count .critical)), ("warning", Data.ofNat (r.count .warning)),
    ("info", Data.ofNat (r.count .info))]

def data (r : Report) : Data :=
  .record [("generated_at", Data.ofInstant r.generatedAt),
    ("findings", .list (r.findings.map Finding.data)), ("summary", r.summaryData)]

end Report

def report (inv : Inventory) (p : Policy) (now : Instant) : Report :=
  ⟨now, (findings inv p now).mergeSort Finding.precedes⟩

end Keyring.Audit

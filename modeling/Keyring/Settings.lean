import Keyring.Algorithm
import Keyring.Document.Kind

/-!
# Settings

What the user may choose: how new keys are made, from when on a key is reported,
and where the ssh configuration is.
-/

namespace Keyring

structure Settings where
  defaultAlgorithm : Algorithm
  defaultTtlDays : Option Nat
  expiryWarningDays : Nat
  maxKeyAgeDays : Nat
  minRsaBits : Nat
  connectTimeoutSecs : Nat
  sshConfig : Option Path
deriving DecidableEq, Repr

namespace Settings

def initial : Settings where
  defaultAlgorithm := .ed25519
  defaultTtlDays := none
  expiryWarningDays := 14
  maxKeyAgeDays := 365
  minRsaBits := 3072
  connectTimeoutSecs := 10
  sshConfig := none

def data (s : Settings) : Data :=
  .record (
    [("default_algorithm", s.defaultAlgorithm.data)]
    ++ Data.optionalField "default_ttl_days" s.defaultTtlDays Data.ofNat
    ++ [("expiry_warning_days", Data.ofNat s.expiryWarningDays),
      ("max_key_age_days", Data.ofNat s.maxKeyAgeDays),
      ("min_rsa_bits", Data.ofNat s.minRsaBits),
      ("connect_timeout_secs", Data.ofNat s.connectTimeoutSecs)]
    ++ Data.optionalField "ssh_config" s.sshConfig .text)

/-- The fields in the order in which they are shown. -/
def fieldNames : List String :=
  ["default_algorithm", "default_ttl_days", "expiry_warning_days", "max_key_age_days",
    "min_rsa_bits", "connect_timeout_secs", "ssh_config"]

/-- The numbers that a field may hold are below this. -/
def numberBound : Nat := Nat.pow 2 32

open Format in
def read? {α : Type} [Format α] (a : α) : Reading Settings := do
  let fields ← record? fieldNames a
  let number := fun name fallback => withDefault fields name fallback (wholeBelow numberBound)
  return {
    defaultAlgorithm :=
      ← withDefault fields "default_algorithm" initial.defaultAlgorithm Algorithm.read?
    defaultTtlDays := ← optionalField fields "default_ttl_days" (wholeBelow numberBound)
    expiryWarningDays := ← number "expiry_warning_days" initial.expiryWarningDays
    maxKeyAgeDays := ← number "max_key_age_days" initial.maxKeyAgeDays
    minRsaBits := ← number "min_rsa_bits" initial.minRsaBits
    connectTimeoutSecs := ← number "connect_timeout_secs" initial.connectTimeoutSecs
    sshConfig := ← optionalField fields "ssh_config" text? }

def text (s : Settings) : String := DocumentKind.yaml.write s.data

/-- The settings of a file; a file of blanks holds the initial ones. -/
def ofText (text : String) : Except Error Settings :=
  if Text.isAllBlank text then .ok initial else DocumentKind.yaml.read read? read? text

/-- A word that takes the value of an optional field away. -/
def isNone (value : String) : Bool := value.toList.map Char.toLower = "none".toList

def number (field value : String) : Except Error Nat :=
  match Text.boundedNat? numberBound value with
  | some n => .ok n
  | none => .error (.invalidSetting field "expected a whole number")

/-- Work on settings; what it has changed when it fails stays changed. -/
abbrev SettingsM := ExceptT Error (StateM Settings)

def ofExcept {α : Type} (r : Except Error α) : SettingsM α :=
  match r with
  | .ok a => pure a
  | .error e => throw e

def set (field value : String) : SettingsM Unit :=
  match field with
  | "default_algorithm" => do
    let a ← ofExcept (Algorithm.ofText value)
    modify fun s => { s with defaultAlgorithm := a }
  | "default_ttl_days" => do
    let days ← ofExcept (if isNone value then .ok none else some <$> number field value)
    modify fun s => { s with defaultTtlDays := days }
  | "expiry_warning_days" => do
    let n ← ofExcept (number field value)
    modify fun s => { s with expiryWarningDays := n }
  | "max_key_age_days" => do
    let n ← ofExcept (number field value)
    modify fun s => { s with maxKeyAgeDays := n }
  | "min_rsa_bits" => do
    let n ← ofExcept (number field value)
    modify fun s => { s with minRsaBits := n }
  | "connect_timeout_secs" => do
    let n ← ofExcept (number field value)
    modify fun s => { s with connectTimeoutSecs := n }
  | "ssh_config" => modify fun s => { s with sshConfig := if isNone value then none else some value }
  | _ => throw (.invalidSetting field
      ("unknown field (expected one of: " ++ ", ".intercalate fieldNames ++ ")"))

inductive WarningLevel where
  | warning
  | error
deriving DecidableEq, Repr

def WarningLevel.name : WarningLevel → String
  | warning => "warning"
  | error => "error"

structure Warning where
  level : WarningLevel
  message : String
deriving DecidableEq, Repr

def Warning.data (w : Warning) : Data :=
  .record [("level", .text w.level.name), ("message", .text w.message)]

/-- What is wrong with the lifetime of new keys. -/
def ttlWarnings (s : Settings) : List Warning :=
  match s.defaultTtlDays with
  | none => []
  | some ttl =>
    if ttl = 0 then
      [⟨.error, "default_ttl_days=0 would create keys that are already expired"⟩]
    else if ttl ≤ s.expiryWarningDays then
      [⟨.warning, s!"default_ttl_days={ttl} is inside the {s.expiryWarningDays}-day expiry "
        ++ "warning window; new keys will be flagged immediately"⟩]
    else []

/-- What the user should know about the settings. -/
def warnings (s : Settings) : List Warning :=
  (if s.minRsaBits < Algorithm.rsaFloorBits then
    [⟨.error, s!"min_rsa_bits={s.minRsaBits} is below the {Algorithm.rsaFloorBits}-bit floor"⟩]
    else [])
  ++ (if s.connectTimeoutSecs = 0 then
    [⟨.error, "connect_timeout_secs must be greater than zero"⟩] else [])
  ++ (if s.defaultAlgorithm = .dsa then
    [⟨.error, "default_algorithm 'dsa' is refused by key generation"⟩] else [])
  ++ s.ttlWarnings
  ++ (if s.maxKeyAgeDays ≤ s.expiryWarningDays then
    [⟨.warning, s!"expiry_warning_days={s.expiryWarningDays} is not shorter than "
      ++ s!"max_key_age_days={s.maxKeyAgeDays}"⟩]
    else [])

end Settings

end Keyring

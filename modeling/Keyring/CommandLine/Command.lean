import Keyring.CommandLine.Grammar
import Keyring.Lifecycle.Import
import Keyring.Remote.Hosts

/-!
# Commands

What a command line asks for, and how it is read from the line and the
environment.
-/

namespace Keyring.CommandLine

/-- What the user sets outside of the command line. -/
structure Environment where
  home : Option Path
  user : Option String
  vaultDir : Option String
  inventory : Option String
  sshConfig : Option String
  passphrase : Option String
deriving DecidableEq, Repr

structure KeyWish where
  name : String
  keyType : Option String
  bits : Option Nat
  comment : Option String
  ttlDays : Option Nat
  passphrase : Option String
  tags : List String
deriving DecidableEq, Repr

structure RotationWish where
  name : String
  newName : Option String
  keyType : Option String
  bits : Option Nat
  ttlDays : Option Nat
  passphrase : Option String
  deploy : Bool
  revokeOld : Bool
deriving DecidableEq, Repr

inductive Command where
  | init
  | status
  | keyGenerate (wish : KeyWish)
  | keyImport (req : Lifecycle.ImportedKey)
  | keyList
  | keyShow (name : String)
  | keyRotate (wish : RotationWish)
  | keyRevoke (name : String)
  | keyExpire (name : String) (ttlDays : Option Nat)
  | keyRemove (name : String) (force deleteFiles : Bool)
  | hostAdd (req : Remote.NewHost)
  | hostList
  | hostShow (label : String)
  | hostUpdate (label : String) (change : Remote.HostChange)
  | hostRemove (label : String)
  /-- One host, or all where none is named. -/
  | hostTest (label : Option String)
  | deploy (key : String) (hosts : List String) (manual : Bool)
  | verify (key host : String)
  | revoke (key host : String)
  | audit (strict noFiles : Bool)
  | configShow
  | configValidate
  | configSet (field value : String)
  | syncConfig (dryRun remove : Bool)
deriving DecidableEq, Repr

structure Invocation where
  vaultDir : Option Path
  inventory : Option Path
  sshConfig : Option Path
  json : Bool
  command : Command
deriving DecidableEq, Repr

def wordBound : Nat := Nat.pow 2 32
def portBound : Nat := Nat.pow 2 16

/-- The options for files, by the name they have in the environment. -/
def placeOptions : List String := ["vault-dir", "inventory", "ssh-config"]

def common : Common := ⟨placeOptions.map pathOption ++ [flag "json"], "json"⟩

def keyShape : Shape := .group [
  ("generate", .command [textOption "type", numberOption "bits" wordBound, textOption "comment",
    numberOption "ttl-days" wordBound, textOption "passphrase", repeatedOption "tag"] 1 (some 1)),
  ("import", .command [pathOption "private", textOption "public-key",
    numberOption "ttl-days" wordBound, repeatedOption "tag"] 1 (some 1)),
  ("list", .command [] 0 (some 0)),
  ("show", .command [] 1 (some 1)),
  ("rotate", .command [textOption "new-name", textOption "type", numberOption "bits" wordBound,
    numberOption "ttl-days" wordBound, textOption "passphrase", flag "deploy", flag "revoke-old"]
    1 (some 1)),
  ("revoke", .command [] 1 (some 1)),
  ("expire", .command [numberOption "ttl-days" wordBound, flag "never"] 1 (some 1)),
  ("remove", .command [flag "force", flag "delete-files"] 1 (some 1))]

def hostShape : Shape := .group [
  ("add", .command [textOption "hostname", textOption "user", numberOption "port" portBound,
    textOption "identity", repeatedOption "tag"] 1 (some 1)),
  ("list", .command [] 0 (some 0)),
  ("show", .command [] 1 (some 1)),
  ("update", .command [textOption "hostname", textOption "user", numberOption "port" portBound,
    textOption "identity", flag "clear-identity", repeatedOption "tag"] 1 (some 1)),
  ("remove", .command [] 1 (some 1)),
  ("test", .command [flag "all"] 0 (some 1))]

def configShape : Shape := .group [
  ("show", .command [] 0 (some 0)),
  ("validate", .command [] 0 (some 0)),
  ("set", .command [] 2 (some 2))]

def lineShape : Shape := .group [
  ("init", .command [] 0 (some 0)),
  ("status", .command [] 0 (some 0)),
  ("key", keyShape),
  ("host", hostShape),
  ("deploy", .command [flag "manual"] 2 none),
  ("verify", .command [] 2 (some 2)),
  ("revoke", .command [] 2 (some 2)),
  ("audit", .command [flag "strict", flag "no-fs"] 0 (some 0)),
  ("config", configShape),
  ("sync-config", .command [flag "dry-run", flag "remove"] 0 (some 0))]

/-- The options that do not go together, or that one needs, at a command. -/
def contradicts (names : List String) (l : Level) : Bool :=
  match names with
  | ["key", "import"] => !l.has "private"
  | ["key", "rotate"] => l.has "revoke-old" && !l.has "deploy"
  | ["key", "expire"] => l.has "ttl-days" == l.has "never"
  | ["host", "add"] => !l.has "hostname"
  | ["host", "update"] => l.has "identity" && l.has "clear-identity"
  | ["host", "test"] => l.words.isEmpty != l.has "all"
  | _ => false

def passphraseOf (env : Environment) (l : Level) : Option String :=
  (l.value? "passphrase").or env.passphrase

/-- The command of its names, with what was given to it. -/
def commandOf? (env : Environment) (names : List String) (l : Level) : Option Command :=
  let bits := l.number? "bits" wordBound
  let ttlDays := l.number? "ttl-days" wordBound
  let port := l.number? "port" portBound
  let tags := l.valuesOf "tag"
  match names, l.words with
  | ["init"], _ => some .init
  | ["status"], _ => some .status
  | ["key", "generate"], [name] =>
    some (.keyGenerate { name, keyType := l.value? "type", bits, comment := l.value? "comment",
                         ttlDays, passphrase := passphraseOf env l, tags })
  | ["key", "import"], [name] =>
    some (.keyImport { name, privateFile := (l.value? "private").getD "",
                       publicLine := l.value? "public-key", ttlDays, tags })
  | ["key", "list"], _ => some .keyList
  | ["key", "show"], [name] => some (.keyShow name)
  | ["key", "rotate"], [name] =>
    some (.keyRotate { name, newName := l.value? "new-name", keyType := l.value? "type", bits,
                       ttlDays, passphrase := passphraseOf env l, deploy := l.has "deploy",
                       revokeOld := l.has "revoke-old" })
  | ["key", "revoke"], [name] => some (.keyRevoke name)
  | ["key", "expire"], [name] => some (.keyExpire name (if l.has "never" then none else ttlDays))
  | ["key", "remove"], [name] => some (.keyRemove name (l.has "force") (l.has "delete-files"))
  | ["host", "add"], [label] =>
    some (.hostAdd { label, hostname := (l.value? "hostname").getD "", user := l.value? "user",
                     port, identity := l.value? "identity", tags })
  | ["host", "list"], _ => some .hostList
  | ["host", "show"], [label] => some (.hostShow label)
  | ["host", "update"], [label] =>
    some (.hostUpdate label { hostname := l.value? "hostname", user := l.value? "user", port,
                              identity := l.value? "identity",
                              clearIdentity := l.has "clear-identity",
                              tags := if tags.isEmpty then none else some tags })
  | ["host", "remove"], [label] => some (.hostRemove label)
  | ["host", "test"], words => some (.hostTest words.head?)
  | ["deploy"], key :: hosts => some (.deploy key hosts (l.has "manual"))
  | ["verify"], [key, host] => some (.verify key host)
  | ["revoke"], [key, host] => some (.revoke key host)
  | ["audit"], _ => some (.audit (l.has "strict") (l.has "no-fs"))
  | ["config", "show"], _ => some .configShow
  | ["config", "validate"], _ => some .configValidate
  | ["config", "set"], [field, value] => some (.configSet field value)
  | ["sync-config"], _ => some (.syncConfig (l.has "dry-run") (l.has "remove"))
  | _, _ => none

/-- The value of an option that may be given at every level: the innermost one, else that of the
environment. The environment counts at each level that gives none, and may not be empty there. -/
def commonValue (levels : List Level) (set : Option String) (name : String) :
    Except Stop (Option String) :=
  let given := levels.filterMap (·.value? name)
  if given.length < levels.length && set = some "" then .error .misuse
  else .ok (given.getLast?.or set)

/-- The command that a line asks for. -/
def Invocation.read (env : Environment) (tokens : List String) : Except Stop Invocation := do
  let (names, levels) ← CommandLine.read common lineShape .empty false tokens
  let leaf := levels.getLast?.getD .empty
  if contradicts names leaf then throw .misuse
  match commandOf? env names leaf with
  | none => throw .misuse
  | some command =>
    return {
      vaultDir := ← commonValue levels env.vaultDir "vault-dir"
      inventory := ← commonValue levels env.inventory "inventory"
      sshConfig := ← commonValue levels env.sshConfig "ssh-config"
      json := levels.any (·.has "json")
      command }

end Keyring.CommandLine

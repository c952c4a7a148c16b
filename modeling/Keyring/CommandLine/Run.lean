import Keyring.CommandLine.Hosts
import Keyring.CommandLine.Vault

/-!
# Running a command line

From the words of a line to what is said, the status at the end, and the world
afterwards.
-/

namespace Keyring.CommandLine

/-- What a command leaves on its two channels, and its status. -/
structure Result where
  status : Nat
  output : String
  complaints : String
deriving DecidableEq, Repr

def okStatus : Nat := 0
def failureStatus : Nat := 1
def misuseStatus : Nat := 2
def panicStatus : Nat := 101

/-- A command carried out. -/
def carryOut (setting : Setting) : Command → Cli Unit
  | .init => setUp setting
  | .status => status setting
  | .keyGenerate wish => keyGenerate setting wish
  | .keyImport req => keyImport setting req
  | .keyList => keyList setting
  | .keyShow name => keyShow setting name
  | .keyRotate wish => keyRotate setting wish
  | .keyRevoke name => keyRevoke setting name
  | .keyExpire name ttlDays => keyExpire setting name ttlDays
  | .keyRemove name force deleteFiles => keyRemove setting name force deleteFiles
  | .hostAdd req => hostAdd setting req
  | .hostList => hostList setting
  | .hostShow label => hostShow setting label
  | .hostUpdate label change => hostUpdate setting label change
  | .hostRemove label => hostRemove setting label
  | .hostTest label => hostTest setting label
  | .deploy key hosts manual => deploy setting key hosts manual
  | .verify key host => verify setting key host
  | .revoke key host => revoke setting key host
  | .audit strict noFiles => audit setting strict noFiles
  | .configShow => configShow setting
  | .configValidate => configValidate setting
  | .configSet field value => configSet setting field value
  | .syncConfig dryRun remove => syncConfig setting dryRun remove

/-- Where an invocation works: in the vault that is named, else in that of the user. -/
def settingOf (env : Environment) (inv : Invocation) : Except Failure Setting :=
  match inv.vaultDir.or (env.home.map Layout.defaultVault) with
  | some vault => .ok {
      vault
      inventory := inv.inventory
      sshConfig := inv.sshConfig
      json := inv.json
      home := env.home
      user := env.user }
  | none => .error ((Failure.ofError .homeNotFound).within "cannot locate the vault directory")

/-- An invocation from its setting to its end. -/
def runInvocation (env : Environment) (inv : Invocation) : Cli Unit := do
  match settingOf env inv with
  | .ok setting => carryOut setting inv.command
  | .error e => throw e

/-- The status of a command that has ended, and what is said of its failure. -/
def conclude : Except Failure Unit → Nat × List String
  | .ok () => (okStatus, [])
  | .error (.said text) => (failureStatus, ["error: " ++ text ++ "\n"])
  | .error (.panicked text) => (panicStatus, [text ++ "\n"])

/-- The version under the name of the program, or of a part of it. -/
def versionText (names : List String) : String :=
  "-".intercalate ("ssh-vault" :: names) ++ " 0.1.0\n"

def usageText : String :=
  "Usage: ssh-vault [OPTIONS] <COMMAND>\n\n"
  ++ "Commands: init, status, key, host, deploy, verify, revoke, audit, config, sync-config\n"
  ++ "Options: --vault-dir, --inventory, --ssh-config, -j, --json, -h, --help, -V, --version\n"

/-- A line that asks for no command. -/
def stopped : Stop → Result
  | .misuse => ⟨misuseStatus, "", usageText⟩
  | .help => ⟨okStatus, usageText, ""⟩
  | .version names => ⟨okStatus, versionText names, ""⟩

/-- A command line run in a world, by a clock. -/
def run (env : Environment) (clock : Time.Clock) (tokens : List String) (world : World) :
    Result × World :=
  match Invocation.read env tokens with
  | .error stop => (stopped stop, world)
  | .ok inv =>
    let start : Console := ⟨{ world with inventory := .empty }, clock, [], []⟩
    let (ending, console) := (runInvocation env inv).run.run start
    let (status, last) := conclude ending
    (⟨status, String.join console.output.reverse, String.join (console.complaints.reverse ++ last)⟩,
      console.world)

end Keyring.CommandLine

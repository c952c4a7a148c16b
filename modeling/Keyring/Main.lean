import Keyring.CommandLine.Run
import Keyring.Tool.Launch

/-!
# The program

The files that a command can ask for are read, the command is run on them, and
what it changed is written. Nothing is decided here. Of the tools only those are
started that are scripts.
-/

namespace Keyring.Program

/-- The permissions that a file counts as having: they cannot be read here. -/
def assumedFileMode : Nat := Disk.privateFileMode
def assumedToolMode : Nat := 0o755
def assumedDirectoryMode : Nat := 0o700

/-- The place that a path names, links taken for what they lead to. -/
def placeOf (workingPlace : Place) (p : Path) : Place :=
  (Path.segments p).foldl (fun at_ segment =>
    if Path.isVoid segment then at_
    else if segment = ['.', '.'] then at_.dropLast
    else at_ ++ [String.ofList segment]) (if p.isAbsolute then [] else workingPlace)

def contentOf (bytes : List UInt8) : Content :=
  match Text.textOfUtf8? bytes with
  | some s => .text s
  | none => .bytes bytes

def bytesOf : Content → List UInt8
  | .text s => Text.utf8Bytes s
  | .bytes b => b

/-- What is at a place, where a file counts as having a mode. -/
def entryFrom (fileMode : Nat) (at_ : Place) : IO (Option Entry) := do
  let entry : IO.FS.DirEntry := ⟨"/", "/".intercalate at_⟩
  try
    let about ← entry.path.metadata
    match about.type with
    | .dir => return some (.directory assumedDirectoryMode)
    | _ =>
      let bytes ← IO.FS.readBinFile entry.path
      return some (.file (contentOf bytes.toList) fileMode
        ⟨about.modified.sec, about.modified.nsec.toNat⟩)
  catch _ => return none

/-- A place and those that lead to it taken over to a disk. -/
def takeOver (fileMode : Nat) (d : Disk) (at_ : Place) : IO Disk :=
  (List.range at_.length).foldlM (fun d n => do
    let front := at_.take (n + 1)
    match ← entryFrom fileMode front with
    | some e => return d.put front e
    | none => return d) d

def takeOverPaths (fileMode : Nat) (d : Disk) (paths : List Path) : IO Disk :=
  paths.foldlM (fun d p => takeOver fileMode d (placeOf d.workingPlace p)) d

def namesIn (p : Path) : IO (List String) := do
  let entry : IO.FS.DirEntry := ⟨p, "."⟩
  try return (← entry.path.readDir).toList.map (·.fileName)
  catch _ => return []

/-- A path of an ssh configuration and that of its backup. -/
def withBackup (p : Path) : List Path := [p, Layout.backupFile p]

/-- The paths of the files that a command can ask for before it knows what is in any. -/
def pathsAtFirst (setting : CommandLine.Setting) (tokens : List String) : IO (List Path) := do
  let vault := setting.vault
  let keys := (← namesIn (Layout.keysDir vault)).map (Path.join (Layout.keysDir vault))
  let sshConfigs := setting.sshConfig.toList ++ (setting.home.map Layout.defaultSshConfig).toList
  return [vault, Layout.settingsFile vault, Layout.yamlInventory vault, Layout.jsonInventory vault,
      Layout.keysDir vault] ++ keys ++ setting.inventory.toList
    ++ sshConfigs.flatMap withBackup ++ tokens ++ tokens.map (· ++ ".pub")

/-- The paths that the inventory and the settings name. -/
def pathsNamed (setting : CommandLine.Setting) (d : Disk) : List Path :=
  let inventory := setting.inventory.getD (Store.inventoryFile d setting.vault)
  let keys := match Store.loadInventory d inventory with
    | .ok inv => inv.keys.flatMap fun k => [k.privateFile, k.publicFile]
    | .error _ => []
  let sshConfig := match Store.loadSettings d setting.vault with
    | .ok settings => settings.sshConfig.toList.flatMap withBackup
    | .error _ => []
  keys ++ sshConfig

def rights (mode : Nat) : IO.FileRight :=
  let right := fun (shift : Nat) =>
    { read := mode.testBit (shift + 2), write := mode.testBit (shift + 1),
      execution := mode.testBit shift : IO.AccessRight }
  ⟨right 6, right 3, right 0⟩

/-- An entry written to its place, a file beside it first. -/
def writeEntry (at_ : Place) : Entry → IO Unit
  | .directory mode => do
    IO.FS.createDirAll (Disk.pathOf at_)
    IO.setAccessRights (Disk.pathOf at_) (rights mode)
  | .file content mode _ => do
    let beside := Disk.pathOf at_ ++ ".new"
    IO.FS.writeBinFile beside ⟨(bytesOf content).toArray⟩
    IO.setAccessRights beside (rights mode)
    IO.FS.rename beside (Disk.pathOf at_)
  | .link _ => pure ()

/-- What differs between two states of a disk written. -/
def writeChanges (before after : Disk) : IO Unit := do
  for (at_, e) in after.entries do
    if before.entryAt at_ ≠ some e then writeEntry at_ e
  for (at_, _) in before.entries do
    if (after.entryAt at_).isNone then IO.FS.removeFile (Disk.pathOf at_)

def environment : IO CommandLine.Environment := do
  return {
    home := ← IO.getEnv "HOME"
    user := ← IO.getEnv "USER"
    vaultDir := ← IO.getEnv "SSH_VAULT_DIR"
    inventory := ← IO.getEnv "SSH_VAULT_INVENTORY"
    sshConfig := ← IO.getEnv "SSH_VAULT_SSH_CONFIG"
    passphrase := ← IO.getEnv "SSH_VAULT_PASSPHRASE" }

/-- The time that a file gets which is made now. -/
def presentTime : IO Time.Instant :=
  IO.FS.withTempFile fun _ path => do
    let modified := (← path.metadata).modified
    return ⟨modified.sec, modified.nsec.toNat⟩

/-- The tools that a command may call. -/
def toolNames : List String := [Call.keyMaker, Call.login, Call.keyInstaller]

/-- The disk as far as a command can ask for it, with the tools in some directories. -/
def diskFor (empty : Disk) (setting : CommandLine.Setting) (tools : List Path) (tokens : List String) :
    IO Disk := do
  let d ← takeOverPaths assumedFileMode empty ("." :: (← pathsAtFirst setting tokens))
  let d ← takeOverPaths assumedFileMode d (pathsNamed setting d)
  takeOverPaths assumedToolMode d (tools.flatMap fun directory => toolNames.map (Path.join directory))

/-- The directories in which tools are looked for. -/
def toolDirectories : IO (List Path) := do
  return (((← IO.getEnv "PATH").getD "").splitOn ":").filter (!·.isEmpty)

/-- The variables that a tool is told. -/
def toolValues : IO (List (String × String)) := do
  let values ← ["HOME", "USER"].mapM fun name => do return (name, ← IO.getEnv name)
  return values.filterMap fun (name, value) => value.map (name, ·)

/-- How many calls are answered at most. -/
def mostCalls : Nat := 1000000

/-- A command line run in a world where each call is answered by the tool that is found. -/
def runIn (env : CommandLine.Environment) (clock : Time.Clock) (answer : Call → Reply)
    (tokens : List String) (world : World) : CommandLine.Result × World :=
  let runWith := fun replies => CommandLine.run env clock tokens { world with replies }
  runWith (Tool.settle answer (fun replies => (runWith replies).2.calls.reverse) mostCalls [])

def run (tokens : List String) : IO UInt32 := do
  let env ← environment
  let now ← presentTime
  let tools ← toolDirectories
  let empty : Disk :=
    { entries := [], workingPlace := placeOf [] (← IO.currentDir).toString, clock := now }
  let disk ← match CommandLine.Invocation.read env tokens with
    | .error _ => pure empty
    | .ok invocation =>
      match CommandLine.settingOf env invocation with
      | .error _ => pure empty
      | .ok setting => diskFor empty setting tools tokens
  let world : World :=
    { inventory := .empty, disk
      installed := toolNames.filter fun program => (Tool.find? disk tools program).isSome
      passesNul := false, replies := [], usualReply := .absent, calls := [] }
  let answer := Tool.reply disk tools (← toolValues)
  let (result, after) := runIn env (.still (.of now)) answer tokens world
  writeChanges disk after.disk
  IO.print result.output
  IO.eprint result.complaints
  return result.status.toUInt32

end Keyring.Program

def main (tokens : List String) : IO UInt32 := Keyring.Program.run tokens

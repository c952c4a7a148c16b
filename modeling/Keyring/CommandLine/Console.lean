import Keyring.CommandLine.Command
import Keyring.Document.JsonText
import Keyring.Store
import Keyring.Time.Clock

/-!
# Running commands

A command works on a world, looks at a clock, and says something on two channels.
What it said before it fails stays said.
-/

namespace Keyring.CommandLine

/-- Why a command ends early. -/
inductive Failure where
  | said (text : String)
  /-- The program is broken off. -/
  | panicked (text : String)
deriving DecidableEq, Repr

def Failure.ofError (e : Error) : Failure :=
  if e.isPanic then panicked e.message else said e.message

/-- A failure, and what was being done when it came up. -/
def Failure.within (doing : String) : Failure → Failure
  | said text => said (doing ++ ": " ++ text)
  | panicked text => panicked text

structure Console where
  world : World
  clock : Time.Clock
  /-- The lines of the two channels, the last one first. -/
  output : List String
  complaints : List String

abbrev Cli := ExceptT Failure (StateM Console)

/-- Where a command works, and how it reports. -/
structure Setting where
  vault : Path
  inventory : Option Path
  sshConfig : Option Path
  json : Bool
  home : Option Path
  user : Option String
deriving DecidableEq, Repr

def perform {α : Type} (op : Op α) : Cli α := do
  let c ← get
  let (result, world) := op.run.run c.world
  set { c with world }
  match result with
  | .ok a => return a
  | .error e => throw (Failure.ofError e)

/-- An operation as a part of something that is named when it fails. -/
def performFor {α : Type} (doing : String) (op : Op α) : Cli α := do
  try perform op catch e => throw (e.within doing)

/-- An operation whose failure is an outcome, if the program is not broken off. -/
def attempt {α : Type} (op : Op α) : Cli (Except Error α) := do
  let c ← get
  let (result, world) := op.run.run c.world
  set { c with world }
  match result with
  | .ok a => return .ok a
  | .error e => if e.isPanic then throw (Failure.ofError e) else return .error e

/-- The time, as the clock shows it now. -/
def now : Cli Time.Instant :=
  modifyGet fun c => (c.clock.now, { c with clock := c.clock.later })

/-- An operation that is told the time. -/
def performNow {α : Type} (op : Time.Instant → Op α) : Cli α := do perform (op (← now))

def ofExcept {α : Type} (r : Except Error α) : Cli α := perform (Op.ofExcept r)

def disk : Cli Disk := return (← get).world.disk

def inventory : Cli Inventory := return (← get).world.inventory

def print (text : String) : Cli Unit := modify fun c => { c with output := text :: c.output }

def say (line : String) : Cli Unit := print (line ++ "\n")

def complain (line : String) : Cli Unit :=
  modify fun c => { c with complaints := (line ++ "\n") :: c.complaints }

def report (setting : Setting) (data : Data) (lines : List String) : Cli Unit :=
  if setting.json then say (Json.prettyText data) else lines.forM say

/-- The same, the fields of all records in order of their names. -/
def reportSorted (setting : Setting) (data : Data) (lines : List String) : Cli Unit :=
  report setting data.sorted lines

def fail {α : Type} (text : String) : Cli α := throw (.said text)

def indented (lines : List String) : List String := lines.map ("  " ++ ·)

/-- Lines under a heading, after an empty line; nothing where there are none. -/
def underHeading (heading : String) (lines : List String) : List String :=
  if lines = [] then [] else ["", heading] ++ lines

def loadSettings (setting : Setting) : Cli Settings := do
  performFor "failed to load config" (Op.ofExcept (Store.loadSettings (← disk) setting.vault))

def inventoryPath (setting : Setting) : Cli Path := do
  return setting.inventory.getD (Store.inventoryFile (← disk) setting.vault)

/-- The inventory read, with the file that it is kept in. -/
def openInventory (setting : Setting) : Cli Path := do
  let path ← inventoryPath setting
  let inv ← performFor ("failed to load inventory " ++ path)
    (Op.ofExcept (Store.loadInventory (← disk) path))
  perform (Op.setInventory inv)
  return path

def keepInventory (path : Path) (doing : String) : Cli Unit := do
  performFor doing (Store.saveInventory (← inventory) path)

def saveInventory (path : Path) : Cli Unit := keepInventory path "failed to save inventory"

/-- Work on the inventory of the vault, written back if the work succeeds. -/
def withInventory {α : Type} (setting : Setting) (work : Cli α) : Cli α := do
  let path ← openInventory setting
  let a ← work
  saveInventory path
  return a

/-- The ssh configuration: the one given, else that of the settings, else that of the user. -/
def sshConfigPath (setting : Setting) (settings : Settings) : Except Error Path :=
  match setting.sshConfig, settings.sshConfig, setting.home with
  | some path, _, _ => .ok path
  | none, some path, _ => .ok path
  | none, none, some home => .ok (Layout.defaultSshConfig home)
  | none, none, none => .error .homeNotFound

end Keyring.CommandLine

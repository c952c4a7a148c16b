import Keyring.Disk.Write
import Keyring.Inventory.Edit
import Keyring.Tool

/-!
# The world of an operation

An operation works on the inventory, on files, and through tools. What it has
done before it fails stays done.
-/

namespace Keyring

structure World where
  inventory : Inventory
  disk : Disk
  /-- The tools that can be found. -/
  installed : List String
  /-- Whether an argument with a NUL in it reaches a tool. -/
  passesNul : Bool
  /-- How the next calls will end, and how each one after them. -/
  replies : List Reply
  usualReply : Reply
  /-- The calls made, the last one first. -/
  calls : List Call
deriving DecidableEq, Repr

abbrev Op := ExceptT Error (StateM World)

namespace Op

def ofExcept {α : Type} (r : Except Error α) : Op α :=
  match r with
  | .ok a => pure a
  | .error e => throw e

def inventory : Op Inventory := return (← get).inventory

def setInventory (inv : Inventory) : Op Unit := modify fun w => { w with inventory := inv }

def ask {α : Type} (question : Inventory → Except Error α) : Op α := do
  ofExcept (question (← inventory))

/-- Work on the inventory; a failure there is one of the operation, and what was changed before it stays. -/
def edit {α : Type} (work : InventoryM α) : Op α := do
  let w ← get
  let (result, inventory) := work.run.run w.inventory
  set { w with inventory }
  ofExcept result

/-- Work on the disk; a failure there is one of the operation. -/
def onDisk {α : Type} (work : DiskM α) : Op α := do
  let w ← get
  let (result, disk) := work.run.run w.disk
  set { w with disk }
  match result with
  | .ok a => return a
  | .error e => throw (.fileAccess e)

def disk : Op Disk := return (← get).disk

def nextReply : Op Reply :=
  modifyGet fun w => match w.replies with
    | reply :: rest => (reply, { w with replies := rest })
    | [] => (w.usualReply, w)

/-- The files of a key as a tool has left them. -/
def leaveKeyFiles (path : Path) (made : KeyFiles) : Op Unit := do
  if let some s := made.privateText then onDisk (Disk.writeThrough path (.text s))
  if let some s := made.publicText then onDisk (Disk.writeThrough (path ++ ".pub") (.text s))

def call (program : String) (args : List String) (stdin : Option String) : Op Output := do
  if !(← get).installed.contains program then throw (.toolNotInstalled program)
  let made : Call := ⟨program, args, stdin⟩
  if made.hasNul && !(← get).passesNul then throw (.toolFailed program Call.nulMessage)
  modify fun w => { w with calls := made :: w.calls }
  match ← nextReply with
  | .absent => throw (.toolNotInstalled program)
  | .fails reason => throw (.toolFailed program reason)
  | .ran output files =>
    if let some path := made.madeKey? then leaveKeyFiles path files
    return output

end Op

end Keyring

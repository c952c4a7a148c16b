import Keyring.Inventory.Edit
import Keyring.Name
import Keyring.World

/-!
# Hosts on record

Hosts are added, changed and removed; nothing remote happens.
-/

namespace Keyring.Remote

open Time

structure NewHost where
  label : String
  hostname : String
  user : Option String
  port : Option Nat
  identity : Option String
  tags : List String
deriving DecidableEq, Repr

/-- What to change of a host; `none` leaves a field as it is. -/
structure HostChange where
  hostname : Option String
  user : Option String
  port : Option Nat
  identity : Option String
  clearIdentity : Bool
  tags : Option (List String)
deriving DecidableEq, Repr

/-- The user to log in as where none is named: the one who is logged in here, else `root`. -/
def usualUser (here : Option String) : String :=
  (here.filter fun u => !Text.isAllBlank u).getD "root"

/-- The record of a new host, if its names will do. -/
def hostOf (req : NewHost) (here : Option String) (now : Instant) : Except Error Host := do
  Name.check req.label
  if Text.isAllBlank req.hostname then throw (.invalidName req.hostname)
  return {
    label := req.label
    hostname := Text.trimmed req.hostname
    user := req.user.getD (usualUser here)
    port := req.port.getD Host.defaultPort
    identity := req.identity
    tags := req.tags
    addedAt := now
    lastChecked := none
    lastCheckOk := none
    lastCheckError := none }

def addHost (req : NewHost) (here : Option String) (now : Instant) : Op Host := do
  let h ← Op.ofExcept (hostOf req here now)
  Op.edit (InventoryM.insertHost h)
  return h

/-- A field written, where it is given: that of the host on record and that of the host as it was found. -/
def writeField {α : Type} (label : String) (given : Option α) (write : α → Host → Host) (h : Host) :
    InventoryM Host :=
  match given with
  | none => return h
  | some a => do
    modify (·.changeHost label (write a))
    return write a h

/-- The fields that a change gives, one after the other. -/
def HostChange.write (c : HostChange) (label : String) (h : Host) : InventoryM Host := do
  let h ← writeField label c.hostname (fun s h => { h with hostname := s }) h
  let h ← writeField label c.user (fun s h => { h with user := s }) h
  let h ← writeField label c.port (fun n h => { h with port := n }) h
  let h ← writeField label (if c.clearIdentity then some none else c.identity.map some)
    (fun i h => { h with identity := i }) h
  writeField label c.tags (fun tags h => { h with tags := tags }) h

/-- A host changed; the key it is to be logged in to with must be on record. -/
def updateHost (label : String) (change : HostChange) : Op Host :=
  Op.edit do
    if let some identity := change.identity then
      let _ ← InventoryM.ask (·.key identity)
    let h ← InventoryM.ask (·.host label)
    change.write label h

def removeHost (label : String) : Op Host := Op.edit (InventoryM.removeHost label)

end Keyring.Remote

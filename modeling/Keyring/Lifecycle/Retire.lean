import Keyring.Lifecycle.Generate

/-!
# The end of a key

A key is revoked, gets another expiry, or is removed from the record.
-/

namespace Keyring.Lifecycle

open Time

/-- A key marked as revoked, with the hosts that it is still deployed on. -/
def revokeKey (name : String) : Op (List String) :=
  Op.edit do
    let _ ← InventoryM.alterKey name fun k => { k with status := .revoked }
    return (← get).hostNamesOf name

/-- A key that expires a number of days from now, or never. -/
def setExpiry (name : String) (ttlDays : Option Nat) (now : Instant) : Op (Option Instant) :=
  Op.edit do
    let _ ← InventoryM.ask (·.key name)
    let expiresAt ← InventoryM.ofExcept (expiryFrom now ttlDays)
    modify (·.changeKey name fun k => { k with expiresAt := expiresAt })
    return expiresAt

/-- The vault owns the files that it made, and what lies in its directory of keys. -/
def owns (keysDir : Path) (k : Key) (file : Path) : Bool := k.managed || Path.startsWith file keysDir

/-- The files to delete with a key: the public one, and the private one if the vault made it. -/
def filesToDelete (keysDir : Path) (k : Key) : List Path :=
  (k.publicFile :: (if k.managed then [k.privateFile] else [])).filter (owns keysDir k)

def deleteFile (file : Path) : DiskM Unit := do
  if (← get).exists_ file then Disk.removeFile file

/-- A key taken from the record, and its files from the disk where that is asked for. -/
def removeKey (vault : Path) (name : String) (force deleteFiles : Bool) : Op Key := do
  let k ← Op.edit (InventoryM.removeKey name force)
  if deleteFiles then
    let keysDir := (← Op.disk).canonicalOrSame (Layout.keysDir vault)
    Op.onDisk ((filesToDelete keysDir k).forM deleteFile)
  return k

end Keyring.Lifecycle

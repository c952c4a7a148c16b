import Keyring.Lifecycle.Generate
import Keyring.Time.Clock

/-!
# Keys from outside

A key pair that exists already is put on record. Its files stay where they are;
the vault keeps a copy of the public half when there is none beside the private one.
-/

namespace Keyring.Lifecycle

open Time

structure ImportedKey where
  name : String
  privateFile : Path
  /-- The public line, if it is given. -/
  publicLine : Option String
  ttlDays : Option Nat
  tags : List String
deriving DecidableEq, Repr

/-- The public half asked of the tool. -/
def derivePublicLine (privateFile : Path) : Op String := do
  let output ← Op.call Call.keyMaker ["-y", "-f", privateFile] none
  return (← Op.ofExcept (demand Call.keyMaker output)).stdout

/-- The public line, and its file where it was read from one: what is given, else what stands beside
the private key, else what the tool says. -/
def publicLineOf (req : ImportedKey) : Op (String × Option Path) := do
  let beside := req.privateFile ++ ".pub"
  match req.publicLine with
  | some line => return (line, none)
  | none =>
    if (← Op.disk).isFile beside then
      return (← Op.onDisk (Disk.ask (·.readText beside)), some beside)
    else return (← derivePublicLine req.privateFile, none)

/-- What can be refused before a tool is called. -/
def checkImport (inv : Inventory) (d : Disk) (req : ImportedKey) : Except Error Unit := do
  Name.check req.name
  if (inv.findKey? req.name).isSome then throw (.keyExists req.name)
  if !d.isFile req.privateFile then throw (.keyFileMissing req.privateFile)

def checkNewMaterial (inv : Inventory) (pub : PublicKey) : Except Error Unit :=
  match inv.keyByFingerprint? pub.fingerprint with
  | some k => .error (.duplicateMaterial k.name)
  | none => .ok ()

/-- The file of the public half, written into the vault where there is none. -/
def keepPublicFile (vault : Path) (name : String) (pub : PublicKey) (found : Option Path) :
    Op Path := do
  match found with
  | some path => return path
  | none =>
    let path := Layout.publicFile vault name
    Op.onDisk do
      Disk.ensureDirectory (Layout.keysDir vault)
      Disk.writeWhole path (.text (pub.line ++ "\n"))
    return path

/-- The time of a file as a date, which may be past those that are kept. -/
def dateOfFile (t : Instant) : Except Error Instant :=
  let date := (Reading.of t).instant
  if date.InRange then .ok date else .error .dateOverflow

/-- The private file is as old as the key, unless it claims to be newer than now. -/
def creationTime (d : Disk) (privateFile : Path) (now : Instant) : Except Error Instant :=
  match d.modified? privateFile with
  | none => .ok now
  | some t => do
    let date ← dateOfFile t
    return if date ≤ now then date else now

/-- A key pair put on record. -/
def importKey (vault : Path) (req : ImportedKey) (now : Instant) : Op Key := do
  let w ← get
  Op.ofExcept (checkImport w.inventory w.disk req)
  let (line, found) ← publicLineOf req
  let pub ← Op.ofExcept (PublicKey.ofText line)
  Op.ask (checkNewMaterial · pub)
  let publicFile ← keepPublicFile vault req.name pub found
  let d ← Op.disk
  let createdAt ← Op.ofExcept (creationTime d req.privateFile now)
  let expiresAt ← Op.ofExcept (expiryFrom createdAt req.ttlDays)
  let k := recordOf req.name pub pub.comment (d.canonicalOrSame req.privateFile)
    (d.canonicalOrSame publicFile) createdAt expiresAt false req.tags
  Op.edit (InventoryM.insertKey k)
  return k

end Keyring.Lifecycle

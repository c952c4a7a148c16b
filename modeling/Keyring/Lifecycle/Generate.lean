import Keyring.Inventory.Edit
import Keyring.Layout
import Keyring.Name
import Keyring.PublicKey
import Keyring.World

/-!
# New keys

A key pair is made by `ssh-keygen` in the vault. All that is recorded about it
is read from its public half.
-/

namespace Keyring.Lifecycle

open Time

structure NewKey where
  name : String
  algorithm : Algorithm
  bits : Option Nat
  comment : Option String
  ttlDays : Option Nat
  passphrase : Option String
  tags : List String
deriving DecidableEq, Repr

/-- When a key expires that is valid for a number of days. -/
def expiryFrom (start : Instant) (ttlDays : Option Nat) : Except Error (Option Instant) :=
  match ttlDays with
  | none => .ok none
  | some days => match start.plusDays? days with
    | some t => .ok (some t)
    | none => .error .dateOverflow

/-- A key is not made over a file that is there. -/
def checkFree (d : Disk) (path : Path) : Except Error Unit :=
  if d.exists_ path then .error (.keyFileExists path) else .ok ()

/-- The arguments that have a key made. -/
def keygenArgs (req : NewKey) (bits : Option Nat) (comment : String) (path : Path) : List String :=
  ["-q", "-t", req.algorithm.name]
  ++ (match bits with
    | some b => ["-b", toString b]
    | none => [])
  ++ ["-N", req.passphrase.getD "", "-C", comment, "-f", path]

/-- The record of a key pair by its public half. -/
def recordOf (name : String) (pub : PublicKey) (comment : String) (privateFile publicFile : Path)
    (createdAt : Instant) (expiresAt : Option Instant) (managed : Bool) (tags : List String) : Key where
  name := name
  algorithm := pub.algorithm
  bits := pub.bits.toOption
  comment := comment
  fingerprint := pub.fingerprint
  privateFile := privateFile
  publicFile := publicFile
  publicLine := pub.line
  createdAt := createdAt
  expiresAt := expiresAt
  status := .active
  rotatedFrom := none
  rotatedTo := none
  managed := managed
  tags := tags

/-- What can be refused before anything is done. -/
def checkNew (inv : Inventory) (d : Disk) (vault : Path) (req : NewKey) :
    Except Error (Option Nat) := do
  Name.check req.name
  if (inv.findKey? req.name).isSome then throw (.keyExists req.name)
  let bits ← req.algorithm.chosenBits req.bits
  checkFree d (Layout.privateFile vault req.name)
  checkFree d (Layout.publicFile vault req.name)
  return bits

/-- Output of a tool that must succeed. -/
def demand (tool : String) (o : Output) : Except Error Output :=
  if o.success then .ok o else .error (.toolFailed tool o.errorMessage)

def readPublicFile (d : Disk) (path : Path) : Except Error PublicKey :=
  match d.readText path with
  | .ok text => PublicKey.ofText text
  | .error _ => .error (.keyFileMissing path)

/-- A key pair made and put on record. -/
def generate (vault : Path) (req : NewKey) (now : Instant) : Op Key := do
  let w ← get
  let bits ← Op.ofExcept (checkNew w.inventory w.disk vault req)
  let privateFile := Layout.privateFile vault req.name
  let publicFile := Layout.publicFile vault req.name
  Op.onDisk do
    Disk.ensureDirectory (Layout.keysDir vault)
    Disk.setMode (Layout.keysDir vault) 0o700
  let comment := req.comment.getD (req.name ++ "@ssh-vault")
  let output ← Op.call Call.keyMaker (keygenArgs req bits comment privateFile) none
  let _ ← Op.ofExcept (demand Call.keyMaker output)
  Op.onDisk (Disk.setMode privateFile 0o600)
  let pub ← Op.ofExcept (readPublicFile (← Op.disk) publicFile)
  let expiresAt ← Op.ofExcept (expiryFrom now req.ttlDays)
  let k := recordOf req.name pub comment privateFile publicFile now expiresAt true req.tags
  Op.edit (InventoryM.insertKey k)
  return k

end Keyring.Lifecycle

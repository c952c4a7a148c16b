import Keyring.Lifecycle.Generate
import Keyring.Time.Rfc3339

/-!
# Rotation

An active key is followed by a new one. It stays deployed, marked as rotated,
until the new key is deployed and the old one taken off its hosts.
-/

namespace Keyring.Lifecycle

open Time

structure Rotation where
  name : String
  newName : Option String
  algorithm : Option Algorithm
  bits : Option Nat
  ttlDays : Option Nat
  passphrase : Option String
deriving DecidableEq, Repr

structure RotationOutcome where
  old : String
  new : Key
  /-- The hosts that the old key is deployed on. -/
  hostsToRedeploy : List String
  /-- The hosts that are now logged in to with the new key. -/
  identitiesSwitched : List String
deriving DecidableEq, Repr

def RotationOutcome.data (o : RotationOutcome) : Data :=
  .record [("old", .text o.old), ("new", o.new.data),
    ("hosts_to_redeploy", Data.texts o.hostsToRedeploy),
    ("identities_switched", Data.texts o.identitiesSwitched)]

/-- A name that a key has, or a file in the vault. -/
def isTaken (inv : Inventory) (d : Disk) (vault : Path) (name : String) : Bool :=
  (inv.findKey? name).isSome || d.exists_ (Layout.privateFile vault name)

def numberedName (base : String) (n : Nat) : String :=
  if n ≤ 1 then base else s!"{base}-{n}"

/-- The first name from the `n`-th on that is not taken, among so many. -/
def firstFree (taken : String → Bool) (base : String) : Nat → Nat → String
  | 0, _ => base
  | fuel + 1, n =>
    if taken (numberedName base n) then firstFree taken base fuel (n + 1) else numberedName base n

/-- The name with the date, and then with a number, until it is free. No more names can be taken
than there are keys and entries on the disk. -/
def rotationName (inv : Inventory) (d : Disk) (vault : Path) (name : String) (now : Instant) :
    String :=
  let tries := inv.keys.length + d.entries.length + 2
  firstFree (isTaken inv d vault) (name ++ "-" ++ now.dateStamp) tries 1

/-- The new key is like the old one where nothing else is asked for. -/
def successor (old : Key) (req : Rotation) (newName : String) : NewKey :=
  let algorithm := req.algorithm.getD old.algorithm
  let inherited := if algorithm = old.algorithm then old.bits else none
  { name := newName
    algorithm := algorithm
    bits := if algorithm = .ed25519 then none else req.bits.or inherited
    comment := if old.comment.isEmpty then none else some old.comment
    ttlDays := req.ttlDays.or ((old.lifetimeDays?.map Int.toNat).filter (· < Nat.pow 2 32))
    passphrase := req.passphrase
    tags := old.tags }

/-- A key that is in use no more and linked to the one that follows it. -/
def followedBy (new : String) (k : Key) : Key := { k with status := .rotated, rotatedTo := some new }

/-- A key linked to the one that it follows. -/
def following (old : String) (k : Key) : Key := { k with rotatedFrom := some old }

/-- A host that was logged in to with the old key goes to the new one. -/
def switchHost (old new : String) (h : Host) : Host :=
  if h.identity = some old then { h with identity := some new } else h

/-- Both keys are looked up and linked, one after the other; then their hosts go from one to the
other. -/
def link (old new : String) : Op RotationOutcome := do
  let _ ← Op.edit (InventoryM.alterKey old (followedBy new))
  let made ← Op.edit (InventoryM.alterKey new (following old))
  let inv ← Op.inventory
  Op.setInventory { inv with hosts := inv.hosts.map (switchHost old new) }
  return {
    old := old
    new := made
    hostsToRedeploy := inv.hostNamesOf old
    identitiesSwitched := (inv.hostsUsing old).map (·.label) }

/-- A key replaced by a new one. -/
def rotate (vault : Path) (req : Rotation) (now : Instant) : Op RotationOutcome := do
  let old ← Op.ask (·.activeKey req.name)
  let newName := req.newName.getD (rotationName (← Op.inventory) (← Op.disk) vault old.name now)
  let _ ← generate vault (successor old req newName) now
  link old.name newName

end Keyring.Lifecycle

import Keyring.Deployment
import Keyring.Host
import Keyring.Key

/-!
# The inventory

The keys and hosts on record and which key is deployed on which host, each in
the order in which they were added.
-/

namespace Keyring

structure Inventory where
  version : Nat
  keys : List Key
  hosts : List Host
  deployments : List Deployment
deriving DecidableEq, Repr

namespace Inventory

def currentVersion : Nat := 1

def empty : Inventory := ⟨currentVersion, [], [], []⟩

/-! ## Look-ups

The first record that fits is the one meant. -/

def findKey? (inv : Inventory) (name : String) : Option Key := inv.keys.find? (·.name = name)

def findHost? (inv : Inventory) (label : String) : Option Host := inv.hosts.find? (·.label = label)

def key (inv : Inventory) (name : String) : Except Error Key :=
  match inv.findKey? name with
  | some k => .ok k
  | none => .error (.keyNotFound name)

def host (inv : Inventory) (label : String) : Except Error Host :=
  match inv.findHost? label with
  | some h => .ok h
  | none => .error (.hostNotFound label)

/-- The key of a name, if it is in use. -/
def activeKey (inv : Inventory) (name : String) : Except Error Key := do
  let k ← inv.key name
  if k.isActive then return k else throw (.keyNotActive k.name k.status.name)

def keyByFingerprint? (inv : Inventory) (fingerprint : String) : Option Key :=
  inv.keys.find? (·.fingerprint = fingerprint)

def deployment? (inv : Inventory) (key host : String) : Option Deployment :=
  inv.deployments.find? (·.joins key host)

def deployment (inv : Inventory) (key host : String) : Except Error Deployment :=
  match inv.deployment? key host with
  | some d => .ok d
  | none => .error (.deploymentNotFound key host)

def deploymentsOfKey (inv : Inventory) (key : String) : List Deployment :=
  inv.deployments.filter (·.key = key)

def deploymentsOnHost (inv : Inventory) (host : String) : List Deployment :=
  inv.deployments.filter (·.host = host)

/-- The hosts that are logged in to with a key. -/
def hostsUsing (inv : Inventory) (key : String) : List Host :=
  inv.hosts.filter (·.identity = some key)

/-- The hosts that a key is deployed on. -/
def hostNamesOf (inv : Inventory) (key : String) : List String :=
  (inv.deploymentsOfKey key).map (·.host)

/-- The key that a host is logged in to with. -/
def identityOf? (inv : Inventory) (h : Host) : Option Key := h.identity.bind inv.findKey?

end Inventory

end Keyring

import Keyring.Document.Moment

/-!
# Deployments

A deployment says that a host lets a key in, since when, and how it came there.
-/

namespace Keyring

open Time

inductive DeployMethod where
  /-- Put there by `ssh-copy-id`. -/
  | copied
  /-- Put there by hand. -/
  | manual
deriving DecidableEq, Repr

namespace DeployMethod

def name : DeployMethod → String
  | copied => "ssh_copy_id"
  | manual => "manual"

def ofName? : String → Option DeployMethod
  | "ssh_copy_id" => some copied
  | "manual" => some manual
  | _ => none

theorem ofName?_name (m : DeployMethod) : ofName? m.name = some m := by cases m <;> rfl

def text : DeployMethod → String
  | copied => "ssh-copy-id"
  | manual => "manual"

def data (m : DeployMethod) : Data := .text m.name

def read? {α : Type} [Format α] (a : α) : Reading DeployMethod := Format.oneOf ofName? a

end DeployMethod

structure Deployment where
  key : String
  host : String
  deployedAt : Instant
  method : DeployMethod
  verifiedAt : Option Instant
deriving DecidableEq, Repr

namespace Deployment

def joins (d : Deployment) (key host : String) : Bool := d.key = key && d.host = host

def data (d : Deployment) : Data :=
  .record (
    [("key", .text d.key), ("host", .text d.host), ("deployed_at", Data.ofInstant d.deployedAt),
      ("method", d.method.data)]
    ++ Data.optionalField "verified_at" d.verifiedAt Data.ofInstant)

def fieldNames : List String := ["key", "host", "deployed_at", "method", "verified_at"]

open Format in
def read? {α : Type} [Format α] (a : α) : Reading Deployment := do
  let fields ← record? fieldNames a
  return {
    key := ← required fields "key" text?
    host := ← required fields "host" text?
    deployedAt := ← required fields "deployed_at" instant?
    method := ← required fields "method" DeployMethod.read?
    verifiedAt := ← optionalField fields "verified_at" instant? }

end Deployment

end Keyring

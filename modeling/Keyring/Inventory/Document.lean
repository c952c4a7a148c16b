import Keyring.Document.Kind
import Keyring.Inventory.Basic

/-!
# The inventory as a document
-/

namespace Keyring.Inventory

def data (inv : Inventory) : Data :=
  .record [("version", Data.ofNat inv.version), ("keys", .list (inv.keys.map Key.data)),
    ("hosts", .list (inv.hosts.map Host.data)),
    ("deployments", .list (inv.deployments.map Deployment.data))]

def fieldNames : List String := ["version", "keys", "hosts", "deployments"]

open Format in
def read? {α : Type} [Format α] (a : α) : Reading Inventory := do
  let fields ← record? fieldNames a
  return {
    version := ← withDefault fields "version" currentVersion (wholeBelow (Nat.pow 2 32))
    keys := ← withDefault fields "keys" [] (listOf Key.read?)
    hosts := ← withDefault fields "hosts" [] (listOf Host.read?)
    deployments := ← withDefault fields "deployments" [] (listOf Deployment.read?) }

/-- The inventory as the text of a file. -/
def text (inv : Inventory) (kind : DocumentKind) : String := kind.write inv.data

/-- The inventory of a file; a file of blanks holds the empty one. -/
def ofText (kind : DocumentKind) (text : String) : Except Error Inventory :=
  if Text.isAllBlank text then .ok empty else kind.read read? read? text

end Keyring.Inventory

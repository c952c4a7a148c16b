import Keyring.Inventory.Document
import Keyring.Layout
import Keyring.Settings
import Keyring.World

/-!
# Stored documents

The inventory and the settings in their files. A file that is not there holds
what there is at first.
-/

namespace Keyring.Store

/-- The text of a document, if its file is there. -/
def readDocument (d : Disk) (path : Path) : Except Error (Option String) :=
  match d.readOptional path with
  | .ok text => .ok text
  | .error e => .error (.fileAccess e)

/-- The file of the inventory: the one in JSON only where there is none in YAML. -/
def inventoryFile (d : Disk) (vault : Path) : Path :=
  if !d.exists_ (Layout.yamlInventory vault) && d.exists_ (Layout.jsonInventory vault) then
    Layout.jsonInventory vault
  else Layout.yamlInventory vault

def loadInventory (d : Disk) (path : Path) : Except Error Inventory := do
  match ← readDocument d path with
  | some text => Inventory.ofText (.ofPath path) text
  | none => return .empty

def saveInventory (inv : Inventory) (path : Path) : Op Unit :=
  Op.onDisk (Disk.writeWholeWithMode path (.text (inv.text (.ofPath path))) Disk.privateFileMode)

def loadSettings (d : Disk) (vault : Path) : Except Error Settings := do
  match ← readDocument d (Layout.settingsFile vault) with
  | some text => Settings.ofText text
  | none => return .initial

def saveSettings (s : Settings) (vault : Path) : Op Unit :=
  Op.onDisk (Disk.writeWhole (Layout.settingsFile vault) (.text s.text))

end Keyring.Store

import Keyring.Path

/-!
# Where things are kept

The files of a vault directory and of its user.
-/

namespace Keyring.Layout

def defaultVault (home : Path) : Path := home.join ".ssh-vault"

def defaultSshConfig (home : Path) : Path := (home.join ".ssh").join "config"

def settingsFile (vault : Path) : Path := vault.join "config.yaml"

def yamlInventory (vault : Path) : Path := vault.join "inventory.yaml"

def jsonInventory (vault : Path) : Path := vault.join "inventory.json"

def keysDir (vault : Path) : Path := vault.join "keys"

def privateFile (vault : Path) (name : String) : Path := (keysDir vault).join name

def publicFile (vault : Path) (name : String) : Path := (keysDir vault).join (name ++ ".pub")

/-- The file that keeps the former text of an ssh configuration. -/
def backupFile (config : Path) : Path :=
  config.withFileName (config.fileName?.getD "" ++ ".vault-bak")

end Keyring.Layout

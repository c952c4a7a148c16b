import Keyring.Layout
import Keyring.Managed.Block
import Keyring.World

/-!
# Writing the managed section

The ssh configuration is brought in step with the inventory, or freed of its
section. The former text is kept beside it.
-/

namespace Keyring.Managed

structure Outcome where
  path : Path
  changed : Bool
  dryRun : Bool
  backup : Option Path
  conflicts : List String
  content : String
deriving DecidableEq, Repr

def Outcome.data (o : Outcome) : Data :=
  .record (
    [("path", .text o.path), ("changed", .flag o.changed), ("dry_run", .flag o.dryRun)]
    ++ Data.optionalField "backup" o.backup .text
    ++ [("conflicts", Data.texts o.conflicts)])

/-- The file that a write should land in: what the path leads to, or the path itself. -/
def targetOf (d : Disk) (path : Path) : Except FileError Path :=
  match d.canonical path with
  | .ok target => .ok target
  | .error .notFound => .ok path
  | .error e => .error e

/-- A directory that is made for a configuration is open to its user only. -/
def prepareParent (path : Path) : DiskM Unit := do
  if let some parent := Path.parent? path then
    if !parent.isEmpty && !(← get).exists_ parent then
      Disk.ensureDirectory parent
      Disk.setMode parent 0o700

/-- A text put in place of another, which is kept in the file of backups. -/
def replaceText (path : Path) (old : Option String) (new : String) : DiskM (Option Path) := do
  prepareParent path
  let backup ← match old with
    | some text =>
      let file := Layout.backupFile path
      Disk.writeWholeWithMode file (.text text) Disk.privateFileMode
      pure (some file)
    | none => pure none
  let target ← Disk.ask (targetOf · path)
  Disk.writeWholeWithMode target (.text new) Disk.privateFileMode
  return backup

/-- A new text for a configuration, written unless it is the old one or nothing is to be done. -/
def conclude (path : Path) (old : Option String) (new : List Char) (conflicts : List String)
    (dryRun : Bool) : Op Outcome := do
  let content := String.ofList new
  let changed := old.getD "" ≠ content
  let backup ← if changed && !dryRun then Op.onDisk (replaceText path old content) else pure none
  return { path, changed, dryRun, backup, conflicts, content }

/-- The configuration with the section of the inventory. -/
def sync (path : Path) (dryRun : Bool) : Op Outcome := do
  let old ← Op.onDisk (Disk.ask (·.readOptional path))
  let inv ← Op.inventory
  let merged ← Op.ofExcept (merge (old.getD "").toList (block inv))
  let shadowed ← Op.ofExcept (conflicts merged inv)
  conclude path old merged shadowed dryRun

/-- The configuration without a section. -/
def removeSection (path : Path) (dryRun : Bool) : Op Outcome := do
  let old ← Op.onDisk (Disk.ask (·.readOptional path))
  let stripped ← Op.ofExcept (strip (old.getD "").toList)
  conclude path old stripped [] dryRun

end Keyring.Managed

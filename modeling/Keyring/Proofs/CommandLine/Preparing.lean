import Keyring.Proofs.CommandLine.Ending
import Keyring.Proofs.Disk.Staying
import Keyring.Proofs.Inventory.Storage

/-!
# The parts of a vault

Directories, settings and an inventory: each is made where it is missing and kept where it is there. What a part
does to the disk is told by what stays (`Stays`) and by what comes (`SettingsMade`, `InventoryMade`); a part that
is there already is left as it is.
-/

namespace Keyring.CommandLine

open Disk

variable {α : Type} {setting : Setting} {c c' : Console} {path : Path} {d d' : Disk} {made : List String}

/-- The console when nothing but the disk is another. -/
def Console.withDisk (c : Console) (d : Disk) : Console := { c with world := { c.world with disk := d } }

theorem of_perform_onDisk {work : DiskM α} {a : α} (done : outcome (perform (Op.onDisk work)) c = (.ok a, c')) :
    ∃ d, outcome work c.world.disk = (.ok a, d) ∧ c' = c.withDisk d := by
  rw [outcome_perform, Op.outcome_onDisk] at done
  rcases run : outcome work c.world.disk with ⟨e | b, d⟩ <;> rw [run] at done
  · cases done
  · obtain ⟨same, rfl⟩ := Prod.mk.inj done
    obtain rfl := Except.ok.inj same
    exact ⟨d, rfl, rfl⟩

theorem of_performFor_onDisk {doing : String} {work : DiskM α} {a : α}
    (done : outcome (performFor doing (Op.onDisk work)) c = (.ok a, c')) :
    ∃ d, outcome work c.world.disk = (.ok a, d) ∧ c' = c.withDisk d :=
  of_perform_onDisk (outcome_performFor_ok_iff.mp done)

/-- The directories of a vault are made, and kept to their owner. -/
def keepDirectories (vault : Path) : DiskM Unit := do
  keepDirectory vault
  keepDirectory (Layout.keysDir vault)

/-- The disk when the directories of a vault have been made. -/
def laidOut (vault : Path) (d : Disk) : Disk := (outcome (keepDirectories vault) d).2

/-- The first part of setting up. -/
def layOut (setting : Setting) : Cli (List String) := do
  let vaultDir ← prepareDirectory setting.vault
  let keysDir ← prepareDirectory (Layout.keysDir setting.vault)
  return vaultDir ++ keysDir

theorem of_prepareDirectory (done : outcome (prepareDirectory path) c = (.ok made, c')) :
    ∃ d, outcome (keepDirectory path) c.world.disk = (.ok (), d) ∧ c' = c.withDisk d := by
  rw [prepareDirectory, outcome_bind, outcome_disk] at done
  dsimp only at done
  obtain ⟨_, c₁, first, rest⟩ := of_outcome_bind_ok done
  obtain ⟨d₁, ensured, rfl⟩ := of_performFor_onDisk first
  obtain ⟨_, c₂, second, last⟩ := of_outcome_bind_ok rest
  obtain ⟨d₂, kept, rfl⟩ := of_perform_onDisk second
  obtain ⟨-, rfl⟩ := Prod.mk.inj last
  refine ⟨d₂, ?_, rfl⟩
  rw [keepDirectory, outcome_bind, ensured]
  exact kept

theorem of_layOut (done : outcome (layOut setting) c = (.ok made, c')) :
    outcome (keepDirectories setting.vault) c.world.disk = (.ok (), laidOut setting.vault c.world.disk) ∧
      c' = c.withDisk (laidOut setting.vault c.world.disk) := by
  obtain ⟨_, c₁, first, done⟩ := of_outcome_bind_ok done
  obtain ⟨d₁, kept, rfl⟩ := of_prepareDirectory first
  obtain ⟨_, c₂, second, done⟩ := of_outcome_bind_ok done
  obtain ⟨d₂, kept', rfl⟩ := of_prepareDirectory second
  obtain ⟨-, rfl⟩ := Prod.mk.inj done
  have run : outcome (keepDirectories setting.vault) c.world.disk = (.ok (), d₂) := by
    rw [keepDirectories, outcome_bind, kept]
    exact kept'
  rw [laidOut, run]
  exact ⟨rfl, rfl⟩

/-- Nothing is said to be made where a directory is its owner's only. -/
theorem outcome_prepareDirectory_of_ownersOnly (sound : c.world.disk.WellFormed)
    (owners : OwnersOnly c.world.disk path) : ∃ d,
      outcome (prepareDirectory path) c = (.ok [], c.withDisk d) ∧ SameEntries c.world.disk d := by
  have isDir := owners.isDirectory
  obtain ⟨d, kept, same⟩ := outcome_keepDirectory_of_ownersOnly sound owners
  have ensured := outcome_ensureDirectory_of_isDirectory isDir
  rw [keepDirectory, outcome_bind, ensured] at kept
  dsimp only at kept
  refine ⟨d, ?_, same⟩
  rw [prepareDirectory, outcome_bind, outcome_disk]
  dsimp only
  rw [outcome_bind, outcome_performFor, Op.outcome_onDisk, ensured]
  dsimp only
  rw [outcome_bind, outcome_perform, Op.outcome_onDisk, kept]
  dsimp only
  rw [isDir]
  rfl

theorem outcome_layOut_of_ownersOnly (sound : c.world.disk.WellFormed)
    (vault : OwnersOnly c.world.disk setting.vault)
    (keys : OwnersOnly c.world.disk (Layout.keysDir setting.vault)) : ∃ d,
      outcome (layOut setting) c = (.ok [], c.withDisk d) ∧ SameEntries c.world.disk d := by
  obtain ⟨d₁, first, same⟩ := outcome_prepareDirectory_of_ownersOnly sound vault
  obtain ⟨d₂, second, same'⟩ := outcome_prepareDirectory_of_ownersOnly (c := c.withDisk d₁)
    (same.wellFormed sound) (same.ownersOnly sound keys)
  refine ⟨d₂, ?_, same.trans same'⟩
  rw [layOut, outcome_bind, first]
  dsimp only
  rw [outcome_bind, second]
  rfl

/-! ## Settings -/

/-- If the file of the settings is out of reach for the number of links on its path, then on any other path too. -/
def WithinReach (vault : Path) (d : Disk) : Prop :=
  d.find true (Layout.settingsFile vault) = .error .tooManyLinks →
    ∀ at_, d.place false (Layout.settingsFile vault) = .ok at_ → Vacant d at_

/-- The file of the settings is there, or it has come to where its path stopped. -/
inductive SettingsMade (vault : Path) (d : Disk) : Disk → Prop
  | there : d.exists_ (Layout.settingsFile vault) = true → SettingsMade vault d d
  | new {at_ : Place} {d' : Disk} : d.exists_ (Layout.settingsFile vault) = false →
      d.place false (Layout.settingsFile vault) = .ok at_ → d'.WellFormed → Differs at_ d d' →
      SettingsMade vault d d'

/-- No path goes on from where there are no settings, if they are not out of reach. -/
theorem vacant_of_absent {vault : Path} {at_ : Place} (sound : d.WellFormed) (near : WithinReach vault d)
    (absent : d.exists_ (Layout.settingsFile vault) = false)
    (stops : d.place false (Layout.settingsFile vault) = .ok at_) : Vacant d at_ := by
  cases found : d.find true (Layout.settingsFile vault) with
  | error why =>
    by_cases far : why = .tooManyLinks
    · rw [far] at found
      exact near found _ stops
    · exact vacant_of_missing sound stops found far
  | ok there =>
    rw [Disk.exists_, found] at absent
    cases absent

namespace SettingsMade

variable {vault : Path} {at_ : Place}

theorem sound (made : SettingsMade vault d d') (sound : d.WellFormed) : d'.WellFormed := by
  cases made with
  | there => exact sound
  | new _ _ sound' => exact sound'

theorem stays (made : SettingsMade vault d d') (sound : d.WellFormed) (near : WithinReach vault d) : Stays d d' := by
  cases made with
  | there => exact .refl sound
  | new absent led sound' differs => exact differs.stays_of_vacant sound' (vacant_of_absent sound near absent led)

theorem exists_ (made : SettingsMade vault d d') (sound : d.WellFormed) (near : WithinReach vault d) :
    d'.exists_ (Layout.settingsFile vault) = true := by
  cases made with
  | there present => exact present
  | new absent led _ differs =>
    obtain ⟨e, entry, isFile⟩ := differs.isFile
    have stops := place_of_vacant (vacant_of_absent sound near absent led) differs led nofun
    exact exists_iff.mpr ⟨_, e, place_true_of_notLink stops (notLink_of_file entry isFile), entry⟩

/-- A path that comes to nothing then stops where it stopped. -/
theorem place (made : SettingsMade vault d d') (led : d.place false path = .ok at_)
    (missing : d'.find true path = .error .notFound) : d'.place false path = .ok at_ := by
  cases made with
  | there => exact led
  | new _ _ _ differs => exact place_of_missing differs led missing

theorem entry (made : SettingsMade vault d d') (here : Place) :
    d'.entryAt here = d.entryAt here ∨ d.place false (Layout.settingsFile vault) = .ok here ∧
      (∃ e, d'.entryAt here = some e ∧ e.isFile = true) ∧ ∀ e, d.entryAt here = some e → e.isFile = false := by
  cases made with
  | there => exact .inl rfl
  | @new at_ _ absent led _ differs =>
    by_cases same : here = at_
    · rw [same]
      refine .inr ⟨led, differs.isFile, fun e entry => ?_⟩
      rw [Bool.eq_false_iff]
      intro isFile
      rw [exists_iff.mpr ⟨_, e, place_true_of_notLink led (notLink_of_file entry isFile), entry⟩] at absent
      cases absent
    · exact .inl (differs.elsewhere here same)

end SettingsMade

/-- Settings that are written where there were none come to where their path stopped. -/
theorem settingsMade_of_writeWhole {vault : Path} {content : Content} (sound : d.WellFormed)
    (isDir : d.isDirectory vault = true) (absent : d.exists_ (Layout.settingsFile vault) = false)
    (written : outcome (writeWhole (Layout.settingsFile vault) content) d = (.ok (), d')) :
    SettingsMade vault d d' := by
  obtain ⟨_, -, ⟨_, _, replaces⟩ | ⟨e, failed⟩⟩ := outcome_writeWhole sound (Layout.settingsFile vault) content
  swap
  · rw [written] at failed
    cases failed
  obtain ⟨at_, led, isDirAt⟩ := isDirectory_iff.mp isDir
  have stops : d.place false (Layout.settingsFile vault) = .ok (at_ ++ ["config.yaml"]) := by
    obtain ⟨_, led', -⟩ := replaces.replaced
    exact place_false_join led isDirAt (by decide) (place_eq_ok_iff.mp led').1
  obtain ⟨sound', differs⟩ := differs_of_writeWhole sound stops replaces.named written
  exact .new absent stops sound' differs

theorem of_prepareSettings (sound : c.world.disk.WellFormed) (isDir : c.world.disk.isDirectory setting.vault = true)
    (done : outcome (prepareSettings setting) c = (.ok made, c')) : ∃ d, c' = c.withDisk d ∧
      SettingsMade setting.vault c.world.disk d := by
  rw [prepareSettings, outcome_bind, outcome_disk] at done
  dsimp only at done
  split at done
  · rename_i present
    obtain ⟨-, rfl⟩ := Prod.mk.inj done
    exact ⟨c.world.disk, rfl, .there present⟩
  · rename_i absent
    obtain ⟨_, c₁, first, last⟩ := of_outcome_bind_ok done
    obtain ⟨d, written, rfl⟩ := of_performFor_onDisk first
    obtain ⟨-, rfl⟩ := Prod.mk.inj last
    exact ⟨d, rfl, settingsMade_of_writeWhole sound isDir (by simpa using absent) written⟩

theorem outcome_prepareSettings_of_exists
    (there : c.world.disk.exists_ (Layout.settingsFile setting.vault) = true) :
    outcome (prepareSettings setting) c = (.ok [], c) := by
  rw [prepareSettings, outcome_bind, outcome_disk]
  dsimp only
  rw [if_pos there]
  rfl

/-- An inventory is in its file, or a blank one has been written where the path came to nothing. -/
inductive InventoryMade (path : Path) (d : Disk) : Disk → Prop
  | there {text : String} {inv : Inventory} : d.readText path = .ok text →
      Inventory.ofText (.ofPath path) text = .ok inv → InventoryMade path d d
  | new {d' : Disk} : d.find true path = .error .notFound →
      outcome (writeWholeWithMode path (.text (Inventory.empty.text (.ofPath path))) privateFileMode) d =
        (.ok (), d') → InventoryMade path d d'

theorem of_prepareInventory {answer : Path × List String}
    (done : outcome (prepareInventory setting) c = (.ok answer, c')) :
    InventoryMade (setting.inventoryFile c.world.disk) c.world.disk c'.world.disk := by
  rw [prepareInventory, outcome_bind, outcome_openInventory_eq] at done
  cases loaded : Store.loadInventory c.world.disk (setting.inventoryFile c.world.disk) with
  | error e =>
    rw [loaded] at done
    cases done
  | ok inv =>
    rw [loaded] at done
    dsimp only at done
    rw [outcome_bind, outcome_disk] at done
    dsimp only at done
    rcases Store.of_loadInventory loaded with ⟨text, read, isText⟩ | ⟨missing, rfl⟩
    · rw [if_pos (exists_of_readText read)] at done
      obtain ⟨-, rfl⟩ := Prod.mk.inj done
      exact .there read isText
    · have absent : c.world.disk.exists_ (setting.inventoryFile c.world.disk) = false := by
        rw [Disk.exists_, missing]
        rfl
      rw [if_neg (by simp [absent]), keepInventory] at done
      obtain ⟨_, c₁, first, last⟩ := of_outcome_bind_ok done
      rw [outcome_bind, outcome_inventory] at first
      obtain ⟨d, written, rfl⟩ := of_performFor_onDisk first
      obtain ⟨-, rfl⟩ := Prod.mk.inj last
      exact .new missing written

theorem InventoryMade.readText (made : InventoryMade path d d') (sound : d.WellFormed) : ∃ text inv,
    d'.readText path = .ok text ∧ Inventory.ofText (.ofPath path) text = .ok inv := by
  cases made with
  | there read isText => exact ⟨_, _, read, isText⟩
  | new _ written =>
    obtain ⟨-, at_, modified, found, -⟩ := found_of_writeWholeWithMode sound written
    exact ⟨_, _, readText_of_find found, Inventory.ofText_text_empty _⟩

theorem InventoryMade.inventoryFile (made : InventoryMade (setting.inventoryFile d) d d')
    (there : d'.exists_ (setting.inventoryFile d) = true) :
    setting.inventoryFile d' = setting.inventoryFile d := by
  cases override : setting.inventory with
  | some p => rw [Setting.inventoryFile_of_some override, Setting.inventoryFile_of_some override]
  | none =>
    cases made with
    | there => rfl
    | new missing written =>
      rw [Setting.inventoryFile_of_none override] at missing there ⊢
      rw [Setting.inventoryFile_of_none override]
      have yaml : Store.inventoryFile d setting.vault = Layout.yamlInventory setting.vault := by
        rw [Store.inventoryFile, if_neg]
        intro json
        have present := Store.exists_inventoryFile (Bool.and_eq_true_iff.mp json).2
        rw [Disk.exists_, missing] at present
        cases present
      rw [yaml] at there
      rw [yaml, Store.inventoryFile, there]
      rfl

theorem outcome_prepareInventory_of_readText {text : String} {inv : Inventory}
    (file : setting.inventoryFile c.world.disk = path) (read : c.world.disk.readText path = .ok text)
    (isText : Inventory.ofText (.ofPath path) text = .ok inv) :
    outcome (prepareInventory setting) c =
      (.ok (path, []), { c with world := { c.world with inventory := inv } }) := by
  have loaded : Store.loadInventory c.world.disk path = .ok inv := by
    rw [Store.loadInventory, Store.readDocument, readOptional_of_readText read]
    exact isText
  rw [prepareInventory, outcome_bind, outcome_openInventory_of_loaded file loaded]
  dsimp only
  rw [outcome_bind, outcome_disk]
  dsimp only
  rw [if_pos (exists_of_readText read)]
  rfl

end Keyring.CommandLine

import Keyring.Proofs.CommandLine.Preparing
import Keyring.Proofs.CommandLine.Saving

/-!
# Setting up a vault

The parts of a vault are made one after the other, and each leaves the paths to those before it as they are. So
all that was there is kept (`Makes.last`), in the end nothing is missing (`Makes.complete`), and of a vault where
nothing is missing nothing is made or changed (`setUp_of_complete`).
-/

namespace Keyring.CommandLine

open Disk

variable {setting : Setting} {c c' : Console} {d d' : Disk}

def setUpData (setting : Setting) (path : Path) (created : List String) : Data :=
  .record [("vault_dir", .text setting.vault), ("inventory", .text path), ("created", Data.texts created)]

def setUpLines (setting : Setting) (created : List String) : List String :=
  ["Vault: " ++ setting.vault] ++ (if created = [] then ["  already initialized"] else [])
    ++ created.map ("  created: " ++ ·)

/-- The last part of setting up. -/
def tellSetUp (setting : Setting) (path : Path) (created : List String) : Cli Unit :=
  reportSorted setting (setUpData setting path created) (setUpLines setting created)

/-- What is said in the end. -/
def setUpReport (setting : Setting) (path : Path) (created : List String) : List String :=
  reported setting (setUpData setting path created).sorted (setUpLines setting created)

theorem outcome_tellSetUp (setting : Setting) (path : Path) (created : List String) (c : Console) :
    outcome (tellSetUp setting path created) c =
      (.ok (), c.telling c.world (setUpReport setting path created)) := outcome_report setting _ _ c

theorem setUp_eq (setting : Setting) : setUp setting =
    layOut setting >>= fun directories => prepareSettings setting >>= fun settings =>
      prepareInventory setting >>= fun (path, inventory) =>
        tellSetUp setting path (directories ++ settings ++ inventory) := by
  unfold setUp layOut tellSetUp setUpData setUpLines
  simp only [bind_assoc, pure_bind]

/-- The states of the disk: its directories are made, then its settings, then its inventory. -/
structure Makes (setting : Setting) (d laid settled d' : Disk) : Prop where
  sound : d.WellFormed
  grows : Grows d laid
  stays : Stays d laid
  vault : OwnersOnly laid setting.vault
  keys : OwnersOnly laid (Layout.keysDir setting.vault)
  settings : SettingsMade setting.vault laid settled
  inventory : InventoryMade (setting.inventoryFile settled) settled d'

theorem makes_of_setUp (sound : c.world.disk.WellFormed) (done : outcome (setUp setting) c = (.ok (), c')) :
    ∃ settled, Makes setting c.world.disk (laidOut setting.vault c.world.disk) settled c'.world.disk := by
  rw [setUp_eq] at done
  obtain ⟨_, c₁, first, done⟩ := of_outcome_bind_ok done
  obtain ⟨kept, rfl⟩ := of_layOut first
  obtain ⟨_, d₁, vaultKept, keysKept⟩ := of_outcome_bind_ok kept
  obtain ⟨grows, stays, vault⟩ := stays_keepDirectory sound vaultKept
  obtain ⟨grows', stays', keys⟩ := stays_keepDirectory grows.sound keysKept
  have vault' := stays'.ownersOnly vault
  obtain ⟨_, c₂, second, done⟩ := of_outcome_bind_ok done
  obtain ⟨settled, rfl, settings⟩ := of_prepareSettings
    (c := c.withDisk (laidOut setting.vault c.world.disk)) stays'.sound vault'.isDirectory second
  obtain ⟨_, c₃, third, done⟩ := of_outcome_bind_ok done
  have inventory := of_prepareInventory third
  dsimp only at done
  rw [outcome_tellSetUp] at done
  obtain rfl := (Prod.mk.inj done).2
  exact ⟨settled, sound, grows.trans grows', stays.trans stays' sound, vault', keys, settings, inventory⟩

/-- An override does not come, by way of directories that are made for it, to what was there. -/
def LeadsDirectly (setting : Setting) (laid d' : Disk) : Prop :=
  ∀ p at_, setting.inventory = some p → d'.place false p = .ok at_ → laid.entryAt at_ ≠ none →
    laid.place false p = .ok at_

namespace Makes

variable {laid settled : Disk} {at_ : Place} {e : Entry}

theorem sound_settled (makes : Makes setting d laid settled d') : settled.WellFormed :=
  makes.settings.sound makes.stays.sound

/-- A new inventory is where its path led, or where nothing was. -/
theorem direct_place (makes : Makes setting d laid settled d') (direct : LeadsDirectly setting laid d')
    (missing : settled.find true (setting.inventoryFile settled) = .error .notFound)
    {content : Content} {mode : Nat}
    (written : outcome (writeWholeWithMode (setting.inventoryFile settled) content mode) settled = (.ok (), d'))
    (led : d'.place false (setting.inventoryFile settled) = .ok at_) :
    settled.place false (setting.inventoryFile settled) = .ok at_ ∨ laid.entryAt at_ = none := by
  cases override : setting.inventory with
  | some p =>
    rw [Setting.inventoryFile_of_some override] at led missing ⊢
    by_cases free : laid.entryAt at_ = none
    · exact .inr free
    · exact .inl (makes.settings.place (direct p at_ override led free) missing)
  | none =>
    obtain ⟨vault, ledVault, isDir⟩ := isDirectory_iff.mp makes.vault.isDirectory
    obtain ⟨name, isName, is⟩ : ∃ name, IsName name ∧ setting.inventoryFile settled = setting.vault.join name := by
      rw [Setting.inventoryFile_of_none override, Store.inventoryFile]
      split
      · exact ⟨"inventory.json", by decide, rfl⟩
      · exact ⟨"inventory.yaml", by decide, rfl⟩
    have faultless := (place_eq_ok_iff.mp led).1
    rw [is] at faultless led written missing ⊢
    have stops := makes.settings.place (place_false_join ledVault isDir isName faultless) missing
    obtain ⟨-, -, led'⟩ := differs_of_writeWholeWithMode makes.sound_settled stops written
    obtain rfl := Except.ok.inj (led'.symm.trans led)
    exact .inl stops

/-- A file that is there when the settings are made was there before, if it does not hold them. -/
theorem file_settled (makes : Makes setting d laid settled d') (entry : settled.entryAt at_ = some e)
    (isFile : e.isFile = true) :
    d.entryAt at_ = some e ∨ laid.place false (Layout.settingsFile setting.vault) = .ok at_ := by
  rcases makes.settings.entry at_ with same | ⟨led, -, -⟩
  · rw [same] at entry
    exact .inl ((makes.grows.files at_ id e isFile).mp entry)
  · exact .inr led

theorem settled_file (makes : Makes setting d laid settled d') (entry : d.entryAt at_ = some e)
    (isFile : e.isFile = true) : settled.entryAt at_ = some e := by
  have laidThere := (makes.grows.files at_ id e isFile).mpr entry
  rcases makes.settings.entry at_ with same | ⟨-, -, noFile⟩
  · rw [same, laidThere]
  · rw [noFile e laidThere] at isFile
    cases isFile

/-- The inventory takes the place of no file that was there before. -/
theorem kept (makes : Makes setting d laid settled d') (direct : LeadsDirectly setting laid d')
    (entry : d.entryAt at_ = some e) (isFile : e.isFile = true) : d'.entryAt at_ = some e := by
  have settledThere := makes.settled_file entry isFile
  rcases makes.inventory with ⟨read, isText⟩ | ⟨missing, written⟩
  · exact settledThere
  obtain ⟨-, here, _, -, led, d₁, paves, differs⟩ := found_of_writeWholeWithMode makes.sound_settled written
  by_cases same : at_ = here
  · obtain rfl := same
    rcases makes.direct_place direct missing written led with stops | free
    · rw [find_eq_ok_iff.mpr ⟨place_true_of_notLink stops (notLink_of_file settledThere isFile), settledThere⟩]
        at missing
      cases missing
    · rw [(makes.grows.files at_ id e isFile).mpr entry] at free
      cases free
  · rw [differs.elsewhere at_ same]
    exact (paves.grows.files at_ id e isFile).mpr settledThere

/-! ## What is where it was -/

theorem laid_settled (makes : Makes setting d laid settled d') (near : WithinReach setting.vault laid) :
    Stays laid settled := makes.settings.stays makes.stays.sound near

theorem stays_settled (makes : Makes setting d laid settled d') (near : WithinReach setting.vault laid) :
    Stays d settled := makes.stays.trans (makes.laid_settled near) makes.sound

/-- The inventory leads no path astray, and no file but it is new. -/
theorem last (makes : Makes setting d laid settled d') (near : WithinReach setting.vault laid)
    (direct : LeadsDirectly setting laid d') : Stays settled d' ∧
      ∀ at_ e, d'.entryAt at_ = some e → e.isFile = true →
        settled.entryAt at_ = some e ∨ d'.place false (setting.inventoryFile settled) = .ok at_ := by
  have sound := makes.sound_settled
  rcases makes.inventory with ⟨read, isText⟩ | ⟨missing, written⟩
  · exact ⟨.refl sound, fun _ _ entry _ => .inl entry⟩
  obtain ⟨stays, at_, led, elsewhere, -⟩ := stays_of_writeWholeWithMode sound missing written fun at_ led =>
    (makes.direct_place direct missing written led).imp_right fun free t link => by
      rw [(makes.laid_settled near).links at_ t link] at free
      cases free
  refine ⟨stays, fun here e entry isFile => ?_⟩
  by_cases same : here = at_
  · exact .inr (same ▸ led)
  · exact .inl ((elsewhere here same e isFile).mp entry)

/-- What comes to the place of an inventory in YAML are no settings. -/
theorem settings_apart (makes : Makes setting d laid settled d') (stays : Stays laid d')
    (led : d'.place false (Layout.yamlInventory setting.vault) = .ok at_) :
    laid.place false (Layout.settingsFile setting.vault) ≠ .ok at_ := by
  intro ledSettings
  obtain ⟨vault, ledVault, isDir⟩ := isDirectory_iff.mp makes.vault.isDirectory
  obtain ⟨vault', ledVault', isDir'⟩ := isDirectory_iff.mp (stays.ownersOnly makes.vault).isDirectory
  obtain ⟨mode, entry⟩ := isDirectoryAt_iff.mp isDir
  obtain rfl := Except.ok.inj (ledVault'.symm.trans (stays.paths _ vault ledVault (by simp [entry])))
  have settings := eq_of_place_false_join ledSettings ledVault isDir (by decide)
  have yaml := eq_of_place_false_join led ledVault' isDir' (by decide)
  rw [settings] at yaml
  have names := (List.append_inj' yaml rfl).2
  exact absurd names (by decide)

/-- Beside an inventory in JSON none in YAML is made, but by an override. -/
theorem not_hidden (makes : Makes setting d laid settled d') (near : WithinReach setting.vault laid)
    (direct : LeadsDirectly setting laid d')
    (json : d.exists_ (Layout.jsonInventory setting.vault) = true)
    (led : d'.place false (Layout.yamlInventory setting.vault) = .ok at_) (entry : d'.entryAt at_ = some e)
    (new : d.entryAt at_ = none) :
    ∃ p, setting.inventory = some p ∧ (e.isDirectory = true ∨ d'.place false p = .ok at_) := by
  obtain ⟨stays, come⟩ := makes.last near direct
  have other := makes.settings_apart ((makes.laid_settled near).trans stays makes.stays.sound) led
  have noLink : ∀ t, e ≠ .link t := by
    rintro t rfl
    rw [(makes.stays_settled near).links at_ t (stays.links at_ t entry)] at new
    cases new
  have noFile : settled.entryAt at_ = some e → e.isFile = true → False := by
    intro entry isFile
    rcases makes.file_settled entry isFile with old | settings
    · rw [old] at new
      cases new
    · exact other settings
  cases override : setting.inventory with
  | some p =>
    refine ⟨p, rfl, ?_⟩
    cases e with
    | directory => exact .inl rfl
    | link t => exact absurd rfl (noLink t)
    | file content mode modified =>
      refine .inr ?_
      have arrived := (come at_ _ entry rfl).resolve_left fun old => noFile old rfl
      rwa [Setting.inventoryFile_of_some override] at arrived
  | none =>
    exfalso
    have inventory := makes.inventory
    rw [Setting.inventoryFile_of_none override] at inventory
    rcases inventory with ⟨read, isText⟩ | ⟨missing, written⟩
    · cases e with
      | link t => exact noLink t rfl
      | file => exact noFile entry rfl
      | directory mode =>
        -- it would be what is read
        have ledThrough := place_true_of_notLink led fun t => by simp [entry]
        rw [Store.inventoryFile, exists_iff.mpr ⟨at_, _, ledThrough, entry⟩] at read
        obtain ⟨here, mode', modified, found⟩ := find_of_readText read
        obtain ⟨led', entry'⟩ := find_eq_ok_iff.mp found
        obtain rfl := Except.ok.inj (ledThrough.symm.trans led')
        rw [entry'] at entry
        cases entry
    · have there := Store.exists_inventoryFile ((makes.stays_settled near).exists_ makes.sound json)
      rw [Disk.exists_, missing] at there
      cases there

end Makes

/-- A vault that is set up: its directories are its owner's, its settings are there, and an inventory can be read. -/
structure Complete (setting : Setting) (d : Disk) : Prop where
  sound : d.WellFormed
  vault : OwnersOnly d setting.vault
  keys : OwnersOnly d (Layout.keysDir setting.vault)
  settings : d.exists_ (Layout.settingsFile setting.vault) = true
  inventory : ∃ text inv, d.readText (setting.inventoryFile d) = .ok text ∧
    Inventory.ofText (.ofPath (setting.inventoryFile d)) text = .ok inv

theorem inventoryFile_of_sameEntries (same : SameEntries d d') (sound : d.WellFormed) (setting : Setting) :
    setting.inventoryFile d' = setting.inventoryFile d := by
  rw [Setting.inventoryFile, Setting.inventoryFile, Store.inventoryFile, Store.inventoryFile, same.exists_ sound,
    same.exists_ sound]

/-- Of a vault that is set up nothing is made, and all is left as it is. -/
theorem setUp_of_complete (complete : Complete setting c.world.disk) : ∃ w,
    outcome (setUp setting) c =
        (.ok (), c.telling w (setUpReport setting (setting.inventoryFile c.world.disk) [])) ∧
      SameEntries c.world.disk w.disk := by
  obtain ⟨d, laid, same⟩ := outcome_layOut_of_ownersOnly complete.sound complete.vault complete.keys
  obtain ⟨text, inv, read, isText⟩ := complete.inventory
  have settled := outcome_prepareSettings_of_exists (c := c.withDisk d)
    ((same.exists_ complete.sound _).trans complete.settings)
  have opened := outcome_prepareInventory_of_readText (c := c.withDisk d)
    (inventoryFile_of_sameEntries same complete.sound setting) (same.readText complete.sound read) isText
  refine ⟨{ c.world with disk := d, inventory := inv }, ?_, same⟩
  rw [setUp_eq, outcome_bind, laid]
  dsimp only
  rw [outcome_bind, settled]
  dsimp only
  rw [outcome_bind, opened]
  dsimp only
  rw [outcome_tellSetUp]
  rfl

/-- Once a vault has been set up nothing is missing. -/
theorem Makes.complete {laid settled : Disk} (makes : Makes setting d laid settled d')
    (near : WithinReach setting.vault laid) (direct : LeadsDirectly setting laid d') : Complete setting d' := by
  have stays := (makes.last near direct).1
  have kept := (makes.laid_settled near).trans stays makes.stays.sound
  obtain ⟨text, inv, read, isText⟩ := makes.inventory.readText makes.sound_settled
  have fileSame := makes.inventory.inventoryFile (exists_of_readText read)
  exact {
    sound := stays.sound
    vault := kept.ownersOnly makes.vault
    keys := kept.ownersOnly makes.keys
    settings := stays.exists_ makes.sound_settled (makes.settings.exists_ makes.stays.sound near)
    inventory := ⟨text, inv, by rwa [fileSame], by rwa [fileSame]⟩ }

/-! ## Lines that set up a vault -/

section Lines

variable {env : Environment} {clock : Time.Clock} {tokens : List String} {inv : Invocation} {w w' : World}

theorem run_setUp (line : Invocation.read env tokens = .ok inv) (init : inv.command = .init)
    (located : settingOf env inv = .ok setting) {ending : Except Failure Unit}
    (ends : outcome (setUp setting) (.start w clock) = (ending, c)) :
    run env clock tokens w = (⟨(conclude ending).1, String.join c.output.reverse,
      String.join (c.complaints.reverse ++ (conclude ending).2)⟩, c.world) := by
  have carried : outcome (runInvocation env inv) (.start w clock) = (ending, c) := by
    rw [runInvocation, located]
    dsimp only
    rw [init]
    exact ends
  rw [run_eq, line]
  dsimp only [concludeIn]
  rw [carried]

/-- A vault is set up. Every file that was there keeps its entry, if an override does not come to it by way of
directories that were made for it. And if the settings are not out of reach for the number of links on their path,
each is where it was on every path that led to it; beside an inventory in JSON none in YAML is made, but by an
override; and when the same is done again nothing is made, and every entry is left as it is. -/
theorem set_up_once_for_all (line : Invocation.read env tokens = .ok inv) (init : inv.command = .init)
    (located : settingOf env inv = .ok setting) (sound : w.disk.WellFormed)
    (succeeds : (run env clock tokens w).1.status = okStatus) (leaves : (run env clock tokens w).2 = w')
    (direct : LeadsDirectly setting (laidOut setting.vault w.disk) w'.disk) :
    (∀ at_ e, w.disk.entryAt at_ = some e → e.isFile = true → w'.disk.entryAt at_ = some e) ∧
      (WithinReach setting.vault (laidOut setting.vault w.disk) →
        (∀ p at_ e, w.disk.find true p = .ok (at_, e) → e.isFile = true → w'.disk.find true p = .ok (at_, e)) ∧
        (w.disk.exists_ (Layout.jsonInventory setting.vault) = true →
          ∀ at_ e, w'.disk.place false (Layout.yamlInventory setting.vault) = .ok at_ →
            w'.disk.entryAt at_ = some e → w.disk.entryAt at_ = none →
              ∃ p, setting.inventory = some p ∧ (e.isDirectory = true ∨ w'.disk.place false p = .ok at_)) ∧
        ∀ later : Time.Clock, ∃ w'', run env later tokens w' = (⟨okStatus,
            String.join ((setUpReport setting (setting.inventoryFile w'.disk) []).map (· ++ "\n")), ""⟩, w'') ∧
          SameEntries w'.disk w''.disk) := by
  rcases ends : outcome (setUp setting) (.start w clock) with ⟨ending, c'⟩
  rw [run_setUp line init located ends] at succeeds leaves
  obtain rfl := leaves
  obtain rfl := status_conclude.mp succeeds
  obtain ⟨settled, makes⟩ := makes_of_setUp (c := .start w clock) sound ends
  have makes : Makes setting w.disk (laidOut setting.vault w.disk) settled c'.world.disk := makes
  refine ⟨fun at_ e => makes.kept direct, fun near =>
    ⟨fun p at_ e found isFile => ?_, fun json at_ e => makes.not_hidden near direct json, fun later => ?_⟩⟩
  · obtain ⟨led, entry⟩ := find_eq_ok_iff.mp found
    have stays := (makes.stays_settled near).trans (makes.last near direct).1 makes.sound
    exact find_eq_ok_iff.mpr ⟨stays.paths p at_ led (by simp [entry]), makes.kept direct entry isFile⟩
  · obtain ⟨w'', again, same⟩ := setUp_of_complete (c := .start c'.world later) (makes.complete near direct)
    refine ⟨w'', ?_, same⟩
    rw [run_setUp line init located again, Console.telling, Console.start]
    dsimp only
    rw [List.append_nil, List.reverse_reverse]
    rfl

end Lines

/-- A vault that has an inventory in JSON and nothing else. -/
def besideWorld : World := { bareWorld .empty with
  disk := (emptyDisk.put ["vault"] (.directory 0o755)).put ["vault", "inventory.json"]
    (.file (.text (webInventory.text .json)) 0o600 ⟨0, 0⟩) }

theorem wellFormed_besideWorld : besideWorld.disk.WellFormed := by
  refine wellFormed_of_entries ?_
  decide +kernel

/-- A vault is set up, by the path of its directory and that of its inventory. -/
def initLine (vault : Path) (inventory : Option Path) : List String :=
  ["--vault-dir", vault] ++ (inventory.elim [] fun p => ["--inventory", p]) ++ ["init"]

def besideSetUp (inventory : Option Path) : World :=
  (run nothingSet stillClock (initLine "vault" inventory) besideWorld).2

/-- What such a line says when it is run again. -/
def saidAgain (later : Time.Clock) (inventory : Option Path) : Result :=
  (run nothingSet later (initLine "vault" inventory) (besideSetUp inventory)).1

/-- What is missing is made beside an inventory in JSON, once, and it is kept; so too where an override asks for
another inventory. -/
theorem set_up_once_for_all_of_besideWorld :
    ((besideSetUp none).disk.readText "vault/config.yaml" = .ok Settings.initial.text ∧
      (besideSetUp none).disk.readText "vault/inventory.json" = .ok (webInventory.text .json) ∧
      ∀ later, saidAgain later none = ⟨okStatus, "Vault: vault\n  already initialized\n", ""⟩) ∧
    (besideSetUp (some "vault/inventory.yaml")).disk.readText "vault/inventory.json" =
        .ok (webInventory.text .json) ∧
      ∀ later, saidAgain later (some "vault/inventory.yaml") =
        ⟨okStatus, "Vault: vault\n  already initialized\n", ""⟩ := by
  have near : WithinReach "vault" (laidOut "vault" besideWorld.disk) := by
    have absent : (laidOut "vault" besideWorld.disk).find true (Layout.settingsFile "vault") = .error .notFound := by
      decide +kernel
    intro far
    rw [absent] at far
    cases far
  have before : besideWorld.disk.find true "vault/inventory.json" = .ok (["vault", "inventory.json"],
      .file (.text (webInventory.text .json)) 0o600 ⟨0, 0⟩) := by decide +kernel
  have there (inventory : Option Path) line succeeds (direct : LeadsDirectly _ _ (besideSetUp inventory).disk) :=
    @set_up_once_for_all ⟨"vault", inventory, none, false, none, none⟩ nothingSet stillClock
      (initLine "vault" inventory) ⟨some "vault", inventory, none, false, .init⟩ besideWorld (besideSetUp inventory)
      line rfl rfl wellFormed_besideWorld succeeds rfl direct
  have said (inventory : Option Path) (path : Path) :
      String.join ((setUpReport ⟨"vault", inventory, none, false, none, none⟩ path []).map (· ++ "\n")) =
        "Vault: vault\n  already initialized\n" := by
    have lines : setUpReport ⟨"vault", inventory, none, false, none, none⟩ path [] =
        ["Vault: vault", "  already initialized"] := rfl
    rw [lines]
    decide
  constructor
  · have done : (run nothingSet stillClock (initLine "vault" none) besideWorld).1.status = okStatus ∧
        (besideSetUp none).disk.readText "vault/config.yaml" = .ok Settings.initial.text := by decide +kernel
    obtain ⟨-, reached⟩ := there none (by decide +kernel) done.1 (fun _ _ override => by cases override)
    obtain ⟨found, -, again⟩ := reached near
    refine ⟨done.2, readText_of_find (found _ _ _ before rfl), fun later => ?_⟩
    obtain ⟨w, ran, -⟩ := again later
    rw [saidAgain, ran, said]
  · have direct : LeadsDirectly ⟨"vault", some "vault/inventory.yaml", none, false, none, none⟩
        (laidOut "vault" besideWorld.disk) (besideSetUp (some "vault/inventory.yaml")).disk := by
      intro p at_ override led old
      obtain rfl := Option.some.inj override
      have goal : (besideSetUp (some "vault/inventory.yaml")).disk.place false "vault/inventory.yaml" =
          .ok ["vault", "inventory.yaml"] := by decide +kernel
      obtain rfl := Except.ok.inj (goal.symm.trans led)
      have new : (laidOut "vault" besideWorld.disk).entryAt ["vault", "inventory.yaml"] = none := by decide +kernel
      exact absurd new old
    obtain ⟨-, reached⟩ := there _ (by decide +kernel) (by decide +kernel) direct
    obtain ⟨found, -, again⟩ := reached near
    refine ⟨readText_of_find (found _ _ _ before rfl), fun later => ?_⟩
    obtain ⟨w, ran, -⟩ := again later
    rw [saidAgain, ran, said]

/-- A directory that is its own `config.yaml`, and shorter ways to go through links in it. -/
def windingWorld : World := { bareWorld .empty with
  disk := ((emptyDisk.put ["l"] (.link ".")).put ["m"] (.link "l/l/l/l/l/l/l/l/l")).put ["config.yaml"] (.link ".") }

/-- A path with as many links as may be followed. -/
def windingPath : Path := "m/m/m/l/l/l/l/l/l/l/l/l/config.yaml"

/-- What a line says that sets up a vault, and the world it leaves. -/
def initRun (vault : Path) (inventory : Option Path) (w : World) : Result × World :=
  run nothingSet stillClock (initLine vault inventory) w

/-- An override makes an inventory in YAML that hides one in JSON. One that leads through a directory that is not
there yet takes the place of what is at its end. And where the vault is reached through its settings, of which too
many links are on the way, they are replaced, and the vault is out of reach from then on. -/
theorem not_set_up_once_for_all :
    ((initRun "vault" (some "vault/inventory.yaml") besideWorld).1.status = okStatus ∧
        Store.inventoryFile besideWorld.disk "vault" = "vault/inventory.json" ∧
        Store.inventoryFile (besideSetUp (some "vault/inventory.yaml")).disk "vault" = "vault/inventory.yaml") ∧
      ((initRun "vault" (some "new/../vault/inventory.json") besideWorld).1.status = okStatus ∧
        besideWorld.disk.readText "vault/inventory.json" = .ok (webInventory.text .json) ∧
        (besideSetUp (some "new/../vault/inventory.json")).disk.readText "vault/inventory.json" =
          .ok (Inventory.empty.text .json)) ∧
      (initRun windingPath (some "inventory.json") windingWorld).1.status = okStatus ∧
        (initRun windingPath (some "inventory.json")
          (initRun windingPath (some "inventory.json") windingWorld).2).1.status = failureStatus := by
  decide +kernel

end Keyring.CommandLine

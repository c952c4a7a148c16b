import Keyring.Proofs.Disk.Vacancy
import Keyring.Proofs.Document.Formats
import Keyring.Proofs.Document.Records
import Keyring.Proofs.Inventory.Integrity
import Keyring.Proofs.Managed.Rewrite
import Keyring.Proofs.Operation.Outcome
import Keyring.Store

/-!
# Stored inventories

An inventory that was saved is loaded as the same inventory, from JSON and from
YAML alike.
-/

namespace Keyring

theorem Text.isAllBlank_of_head {s : String} {c : Char} (first : s.toList.head? = some c)
    (solid : isBlank c = false) : isAllBlank s = false := by
  obtain ⟨rest, shape⟩ := List.head?_eq_some_iff.mp first
  rw [isAllBlank, shape, List.all_cons, solid, Bool.false_and]

namespace Inventory

variable {inv : Inventory} {kind : DocumentKind}

theorem isAllBlank_text (inv : Inventory) (kind : DocumentKind) :
    Text.isAllBlank (inv.text kind) = false := by
  cases kind with
  | yaml =>
    have first : (inv.text .yaml).toList.head? = some 'v' := by
      rw [text, DocumentKind.write, data, Yaml.documentText, String.toList_ofList]
      rfl
    exact Text.isAllBlank_of_head first rfl
  | json =>
    have first : (inv.text .json).toList.head? = some '{' := by
      rw [text, DocumentKind.write, data, Json.prettyText, String.toList_append, String.toList_ofList]
      rfl
    exact Text.isAllBlank_of_head first rfl

/-- The text of an inventory is read as the inventory. -/
theorem ofText_text (storable : inv.IsStorable) (printed : kind = .yaml → Yaml.ReadsBack inv.data) :
    ofText kind (inv.text kind) = .ok inv := by
  rw [ofText, isAllBlank_text, if_neg (by decide), text]
  cases kind with
  | yaml =>
    obtain ⟨doc, parsed, spells⟩ := printed rfl
    have reading : (read? : Yaml.View → Reading Inventory) ⟨doc.anchored, doc.root⟩ = pure inv :=
      Inventory.reads storable _ spells
    have read : doc.read? read? = some inv := by
      rw [Yaml.Document.read?, reading]
      rfl
    rw [DocumentKind.read, DocumentKind.write, parsed, Option.bind_some, read]
  | json =>
    have reading : (read? : Data → Reading Inventory) inv.data = pure inv :=
      Inventory.reads storable inv.data rfl
    have read : inv.data.read? read? = some inv := by
      rw [Data.read?, reading]
      rfl
    rw [DocumentKind.read, DocumentKind.write, Json.read?_prettyText (Json.isWritable_inventory inv),
      Option.bind_some, read]

theorem isStorable_empty : empty.IsStorable where
  version := by decide
  keys := List.forall_mem_nil _
  hosts := List.forall_mem_nil _
  deployments := List.forall_mem_nil _

theorem ofText_text_empty (kind : DocumentKind) : ofText kind (empty.text kind) = .ok empty :=
  ofText_text isStorable_empty fun _ => by decide +kernel

end Inventory

/-- A path at which a file can be written: its directory is there, and at its place is a file or
nothing. -/
structure Disk.HasRoom (d : Disk) (p : Path) : Prop where
  parent : parentOf p = "" ∨ d.isDirectory (parentOf p) = true
  named : checkFileName p = .ok ()
  free : ∃ at_, d.place false p = .ok at_ ∧ ∀ e, d.entryAt at_ = some e → e.isFile = true

namespace Store

variable {inv : Inventory} {path : Path} {w w' : World}

/-- Beside an inventory in JSON the file of the inventory is there. -/
theorem exists_inventoryFile {d : Disk} {vault : Path} (json : d.exists_ (Layout.jsonInventory vault) = true) :
    d.exists_ (inventoryFile d vault) = true := by
  rw [inventoryFile]
  split
  · exact json
  · rename_i yaml
    simpa [json] using yaml

theorem readText_of_saveInventory (sound : w.disk.WellFormed)
    (saved : outcome (saveInventory inv path) w = (.ok (), w')) :
    w'.disk.readText path = .ok (inv.text (.ofPath path)) := by
  rw [saveInventory, Op.outcome_onDisk] at saved
  split at saved
  · rename_i d run
    obtain rfl := (Prod.mk.inj saved).2
    obtain ⟨_, at_, modified, found, _⟩ := Disk.found_of_writeWholeWithMode sound run
    exact Disk.readText_of_find found
  · cases (Prod.mk.inj saved).1

theorem loadInventory_of_readText (read : w.disk.readText path = .ok (inv.text (.ofPath path)))
    (storable : inv.IsStorable) (printed : DocumentKind.ofPath path = .yaml → Yaml.ReadsBack inv.data) :
    loadInventory w.disk path = .ok inv := by
  rw [loadInventory, readDocument, Disk.readOptional_of_readText read]
  exact Inventory.ofText_text storable printed

/-- An inventory is loaded from a text; where there is no file it is empty. -/
theorem of_loadInventory {d : Disk} (loaded : loadInventory d path = .ok inv) :
    (∃ text, d.readText path = .ok text ∧ Inventory.ofText (.ofPath path) text = .ok inv) ∨
      d.find true path = .error .notFound ∧ inv = .empty := by
  rw [loadInventory, readDocument] at loaded
  cases read : d.readOptional path with
  | error e =>
    rw [read] at loaded
    cases loaded
  | ok found =>
    rw [read] at loaded
    cases found with
    | some text => exact .inl ⟨text, Disk.readOptional_eq_some read, loaded⟩
    | none => exact .inr ⟨Disk.readOptional_eq_none_iff.mp read, (Except.ok.inj loaded).symm⟩

theorem exists_saveInventory (sound : w.disk.WellFormed) (room : w.disk.HasRoom path) (inv : Inventory) :
    ∃ w', outcome (saveInventory inv path) w = (.ok (), w') := by
  obtain ⟨at_, led, free⟩ := room.free
  obtain ⟨d, run⟩ := Disk.writeWholeWithMode_succeeds sound room.parent room.named led free
  refine ⟨{ w with disk := d }, ?_⟩
  rw [saveInventory, Op.outcome_onDisk, run]

/-- Where a text was read an inventory can be saved, and read in its turn. -/
theorem saveInventory_of_readText {s : String} (sound : w.disk.WellFormed) (read : w.disk.readText path = .ok s)
    (inv : Inventory) : ∃ d', outcome (saveInventory inv path) w = (.ok (), { w with disk := d' }) ∧
      d'.WellFormed ∧ d'.readText path = .ok (inv.text (.ofPath path)) := by
  obtain ⟨at_, mode, modified, found⟩ := Disk.find_of_readText read
  obtain ⟨d', run⟩ := Disk.writeWholeWithMode_over sound found rfl
  obtain ⟨sound', _, _, found', -⟩ := Disk.found_of_writeWholeWithMode sound run
  exact ⟨d', by rw [saveInventory, Op.outcome_onDisk, run], sound', Disk.readText_of_find found'⟩

/-- An inventory that was saved is loaded as the same inventory, and so alike from files of either
kind. Saving is done where there is room for the file. -/
theorem loadInventory_of_saveInventory (storable : inv.IsStorable) (sound : w.disk.WellFormed)
    (printed : DocumentKind.ofPath path = .yaml → Yaml.ReadsBack inv.data) :
    (w.disk.HasRoom path → ∃ w', outcome (saveInventory inv path) w = (.ok (), w')) ∧
      ∀ w', outcome (saveInventory inv path) w = (.ok (), w') → loadInventory w'.disk path = .ok inv ∧
        ∀ other w'', (DocumentKind.ofPath other = .yaml → Yaml.ReadsBack inv.data) →
          outcome (saveInventory inv other) w = (.ok (), w'') →
            loadInventory w''.disk other = loadInventory w'.disk path := by
  refine ⟨fun room => exists_saveInventory sound room inv, fun w' saved => ?_⟩
  have loaded := loadInventory_of_readText (readText_of_saveInventory sound saved) storable printed
  refine ⟨loaded, fun other w'' printed' saved' => ?_⟩
  rw [loaded]
  exact loadInventory_of_readText (readText_of_saveInventory sound saved') storable printed'

/-- A host with fields left out and given, and with texts that YAML has to quote. -/
def quotedHost : Host where
  label := "a"
  hostname := "~"
  user := "true"
  port := 22
  identity := none
  tags := ["- b", ": "]
  addedAt := ⟨0, 0⟩
  lastChecked := none
  lastCheckOk := some false
  lastCheckError := none

def quotedInventory : Inventory := { Inventory.empty with hosts := [quotedHost] }

theorem isStorable_quotedInventory : quotedInventory.IsStorable where
  version := by decide
  keys := List.forall_mem_nil _
  hosts := List.forall_mem_singleton.mpr
    ⟨by decide, Time.Instant.readsBack_of_isKept (by constructor <;> decide), nofun⟩
  deployments := List.forall_mem_nil _

theorem quotedInventory_loaded :
    DocumentKind.ofPath "h.yaml" = .yaml ∧ DocumentKind.ofPath "h.json" = .json ∧
      ∃ w' w'', outcome (saveInventory quotedInventory "h.yaml") (bareWorld .empty) = (.ok (), w') ∧
        outcome (saveInventory quotedInventory "h.json") (bareWorld .empty) = (.ok (), w'') ∧
        loadInventory w'.disk "h.yaml" = .ok quotedInventory ∧
        loadInventory w''.disk "h.json" = .ok quotedInventory := by
  have inYaml : DocumentKind.ofPath "h.yaml" = .yaml := by decide
  have inJson : DocumentKind.ofPath "h.json" = .json := by decide
  have printed : Yaml.ReadsBack quotedInventory.data := by decide +kernel
  have sound : (bareWorld .empty).disk.WellFormed := Disk.wellFormed_emptyDisk
  obtain ⟨yamlSaved, yamlLoaded⟩ := @loadInventory_of_saveInventory quotedInventory "h.yaml" (bareWorld .empty)
    isStorable_quotedInventory sound fun _ => printed
  obtain ⟨jsonSaved, _⟩ := @loadInventory_of_saveInventory quotedInventory "h.json" (bareWorld .empty)
    isStorable_quotedInventory sound fun _ => printed
  obtain ⟨w', saved⟩ := yamlSaved ⟨.inl (by decide), by decide, ["h.yaml"], by decide, nofun⟩
  obtain ⟨w'', saved'⟩ := jsonSaved ⟨.inl (by decide), by decide, ["h.json"], by decide, nofun⟩
  refine ⟨inYaml, inJson, w', w'', saved, saved', (yamlLoaded w' saved).1, ?_⟩
  exact ((yamlLoaded w' saved).2 "h.json" w'' (fun _ => printed) saved').trans (yamlLoaded w' saved).1

end Store

end Keyring

import Keyring.Proofs.Lifecycle.Safety

/-!
# Removals that fail

A removal takes the record of a key away first, and then deletes its files one by one. It is refused
before that, with nothing done, or it stops at a file that cannot be deleted, with the record gone and
the files before that one deleted (`RemovalStops`).
-/

namespace Keyring

open Time

variable {inv : Inventory} {name : String} {force deleteFiles : Bool} {e : Error} {reason : FileError}

namespace Inventory

/-- A removal is refused for a key that is not on record, and without force for one in use. -/
theorem removeKey_eq_error_iff : inv.removeKey name force = .error e ↔
    (name ∉ inv.keyNames ∧ e = .keyNotFound name) ∨
      name ∈ inv.keyNames ∧ force = false ∧ ∃ use, inv.useOf? name = some use ∧ e = .keyInUse name use := by
  rw [removeKey_eq]
  by_cases known : name ∈ inv.keyNames
  · obtain ⟨k, found⟩ := exists_key_of_mem known
    simp only [found, known, not_true, false_and, true_and, false_or]
    cases force with
    | true => simp
    | false =>
      cases used : inv.useOf? name with
      | none => simp
      | some use => simp [eq_comm]
  · have missing : inv.key name = .error (.keyNotFound name) := by
      unfold key
      rw [findKey?_eq_none_iff.mpr known]
    simp [missing, known, eq_comm]

theorem length_keys_dropKey (known : name ∈ inv.keyNames) :
    (inv.dropKey name).keys.length + 1 = inv.keys.length := by
  have names : (inv.dropKey name).keyNames.length + 1 = inv.keyNames.length := by
    rw [keyNames_dropKey, List.length_erase_of_mem known]
    have some_ : 0 < inv.keyNames.length := List.length_pos_of_mem known
    omega
  simpa [keyNames] using names

end Inventory

namespace Lifecycle

open Inventory

variable {vault f : Path} {fs : List Path} {d d' : Disk} {w w' : World} {k : Key}

/-- The disk when a file that is there has been deleted, or why it cannot be. -/
def deletion (d : Disk) (f : Path) : Except FileError Disk :=
  if d.exists_ f then
    match d.find false f with
    | .ok (_, .directory _) => .error .isDirectory
    | .ok (at_, _) => .ok (d.erase at_)
    | .error reason => .error reason
  else .ok d

theorem outcome_deleteFile_eq (d : Disk) (f : Path) : outcome (deleteFile f) d =
    match deletion d f with
    | .ok d' => (.ok (), d')
    | .error reason => (.error reason, d) := by
  rw [deleteFile, outcome_bind, outcome_get, deletion]
  dsimp only
  by_cases there : d.exists_ f = true
  · rw [if_pos there, if_pos there, Disk.removeFile, outcome_bind, Disk.outcome_ask]
    rcases d.find false f with reason | ⟨at_, entry⟩
    · rfl
    · cases entry <;> rfl
  · rw [if_neg there, if_neg there]
    rfl

/-- Files are deleted in turn up to one that cannot be, and that is why and with what left. -/
inductive DeletionStops : List Path → Disk → FileError → Disk → Prop where
  | here {f : Path} {fs : List Path} {d : Disk} {reason : FileError} :
      deletion d f = .error reason → DeletionStops (f :: fs) d reason d
  | later {f : Path} {fs : List Path} {d d₁ d' : Disk} {reason : FileError} :
      deletion d f = .ok d₁ → DeletionStops fs d₁ reason d' → DeletionStops (f :: fs) d reason d'

theorem not_deletionStops_nil : ¬ DeletionStops [] d reason d' := nofun

theorem deletionStops_cons_iff : DeletionStops (f :: fs) d reason d' ↔
    (deletion d f = .error reason ∧ d' = d) ∨ ∃ d₁, deletion d f = .ok d₁ ∧ DeletionStops fs d₁ reason d' := by
  constructor
  · rintro (failed | ⟨done, stops⟩)
    · exact .inl ⟨failed, rfl⟩
    · exact .inr ⟨_, done, stops⟩
  · rintro (⟨failed, rfl⟩ | ⟨_, done, stops⟩)
    · exact .here failed
    · exact .later done stops

theorem deleteFiles_error_iff :
    outcome (fs.forM deleteFile) d = (.error reason, d') ↔ DeletionStops fs d reason d' := by
  induction fs generalizing d with
  | nil =>
    refine iff_of_false ?_ not_deletionStops_nil
    rintro ⟨⟩
  | cons f fs ih =>
    show outcome (deleteFile f >>= fun _ => fs.forM deleteFile) d = (.error reason, d') ↔ _
    rw [outcome_bind, outcome_deleteFile_eq, deletionStops_cons_iff]
    cases deletion d f with
    | error why => simp [eq_comm]
    | ok d₁ =>
      have rest : outcome (fs.forM deleteFile) d₁ = (.error reason, d') ↔ DeletionStops fs d₁ reason d' := ih
      simpa using rest

/-- The vault owns both files of a key that it made. -/
theorem filesToDelete_of_managed (keysDir : Path) (managed : k.managed = true) :
    filesToDelete keysDir k = [k.publicFile, k.privateFile] := by
  simp [filesToDelete, owns, managed]

/-- Of a key taken in it owns the public file at most. -/
theorem filesToDelete_of_not_managed (keysDir : Path) (foreign : k.managed = false) :
    filesToDelete keysDir k = if owns keysDir k k.publicFile then [k.publicFile] else [] := by
  by_cases owned : owns keysDir k k.publicFile = true
  · simp [filesToDelete, foreign, owned]
  · simp [filesToDelete, foreign, owned]

/-- It stops at the public file, with the disk as it was, or at the private one, with the public one gone. -/
theorem deletionStops_filesToDelete_iff {keysDir : Path} :
    DeletionStops (filesToDelete keysDir k) d reason d' ↔
      (owns keysDir k k.publicFile = true ∧ deletion d k.publicFile = .error reason ∧ d' = d) ∨
        k.managed = true ∧ deletion d k.publicFile = .ok d' ∧ deletion d' k.privateFile = .error reason := by
  by_cases managed : k.managed = true
  · have owned : owns keysDir k k.publicFile = true := by simp [owns, managed]
    rw [filesToDelete_of_managed keysDir managed]
    simp only [deletionStops_cons_iff, not_deletionStops_nil, and_false, exists_false, or_false, owned,
      managed, true_and]
    refine or_congr_right ⟨?_, ?_⟩
    · rintro ⟨_, done, failed, rfl⟩
      exact ⟨done, failed⟩
    · rintro ⟨done, failed⟩
      exact ⟨d', done, failed, rfl⟩
  · have foreign : k.managed = false := by simpa using managed
    rw [filesToDelete_of_not_managed keysDir foreign]
    by_cases owned : owns keysDir k k.publicFile = true
    · simp [owned, foreign, deletionStops_cons_iff, not_deletionStops_nil]
    · simp [owned, foreign, not_deletionStops_nil]

/-- How a removal fails, and what is left. -/
inductive RemovalStops (vault : Path) (w : World) (name : String) : Bool → Bool → Error → World → Prop where
  | unknown {force deleteFiles : Bool} : name ∉ w.inventory.keyNames →
      RemovalStops vault w name force deleteFiles (.keyNotFound name) w
  | inUse {deleteFiles : Bool} {use : String} : name ∈ w.inventory.keyNames → w.inventory.useOf? name = some use →
      RemovalStops vault w name false deleteFiles (.keyInUse name use) w
  /-- The record is gone, and some file could not be deleted. -/
  | files {force : Bool} {k : Key} {inv' : Inventory} {reason : FileError} {d' : Disk} :
      w.inventory.removeKey name force = .ok (k, inv') →
      DeletionStops (filesToDelete (w.disk.canonicalOrSame (Layout.keysDir vault)) k) w.disk reason d' →
      RemovalStops vault w name force true (.fileAccess reason) { w with inventory := inv', disk := d' }

/-- Where the record stays, that is all. -/
theorem removalStops_of_refused {why : Error} (refused : w.inventory.removeKey name force = .error why) :
    RemovalStops vault w name force deleteFiles e w' ↔ e = why ∧ w' = w := by
  constructor
  · intro stops
    cases stops with
    | unknown missing =>
      cases refused.symm.trans (removeKey_eq_error_iff.mpr (.inl ⟨missing, rfl⟩))
      exact ⟨rfl, rfl⟩
    | inUse known used =>
      cases refused.symm.trans (removeKey_eq_error_iff.mpr (.inr ⟨known, rfl, _, used, rfl⟩))
      exact ⟨rfl, rfl⟩
    | files removed _ => cases refused.symm.trans removed
  · rintro ⟨rfl, rfl⟩
    obtain ⟨missing, rfl⟩ | ⟨known, rfl, use, used, rfl⟩ := removeKey_eq_error_iff.mp refused
    · exact .unknown missing
    · exact .inUse known used

/-- Where the record goes, only the files are left to fail for. -/
theorem removalStops_of_removed {inv' : Inventory} (removed : w.inventory.removeKey name force = .ok (k, inv')) :
    RemovalStops vault w name force deleteFiles e w' ↔ deleteFiles = true ∧ ∃ reason d',
      DeletionStops (filesToDelete (w.disk.canonicalOrSame (Layout.keysDir vault)) k) w.disk reason d' ∧
        e = .fileAccess reason ∧ w' = { w with inventory := inv', disk := d' } := by
  constructor
  · intro stops
    cases stops with
    | unknown missing => cases removed.symm.trans (removeKey_eq_error_iff.mpr (.inl ⟨missing, rfl⟩))
    | inUse known used => cases removed.symm.trans (removeKey_eq_error_iff.mpr (.inr ⟨known, rfl, _, used, rfl⟩))
    | files removed' stops =>
      cases removed.symm.trans removed'
      exact ⟨rfl, _, _, stops, rfl, rfl⟩
  · rintro ⟨rfl, reason, d', stops, rfl, rfl⟩
    exact .files removed stops

theorem removeKey_error_iff : outcome (removeKey vault name force deleteFiles) w = (.error e, w') ↔
    RemovalStops vault w name force deleteFiles e w' := by
  unfold removeKey
  rw [outcome_bind, Op.outcome_edit_made (InventoryM.atomic_removeKey _ _), ← Inventory.removeKey]
  rcases removed : w.inventory.removeKey name force with why | ⟨k, inv'⟩
  · rw [removalStops_of_refused removed]
    simp [eq_comm]
  · rw [removalStops_of_removed removed]
    cases deleteFiles with
    | false => simp
    | true =>
      simp only [if_true, true_and]
      rw [outcome_bind, Op.outcome_disk]
      dsimp only
      rw [outcome_bind, Op.outcome_onDisk]
      dsimp only
      simp only [← deleteFiles_error_iff]
      rcases outcome ((filesToDelete _ k).forM deleteFile) w.disk with ⟨reason | u, d'⟩
      · simp [eq_comm]
      · simp

/-- A removal that fails leaves inventory and disk as they were just where it fails for no file. Otherwise
the record of the key is gone, and either the public file could not be deleted and nothing was, or the
public file of a key that the vault made is gone and the private one could not be deleted. -/
theorem removeKey_undone_iff (failed : outcome (removeKey vault name force deleteFiles) w = (.error e, w')) :
    (w'.inventory = w.inventory ∧ w'.disk = w.disk ↔ ∀ reason, e ≠ .fileAccess reason) ∧
      ∀ reason, e = .fileAccess reason → deleteFiles = true ∧ ∃ k,
        w.inventory.removeKey name force = .ok (k, w'.inventory) ∧
        w'.inventory.keys.length + 1 = w.inventory.keys.length ∧
        ((w'.disk = w.disk ∧ deletion w.disk k.publicFile = .error reason) ∨
          k.managed = true ∧ deletion w.disk k.publicFile = .ok w'.disk ∧
            deletion w'.disk k.privateFile = .error reason) := by
  cases removeKey_error_iff.mp failed with
  | unknown missing => simp
  | inUse known used => simp
  | @files force k inv' reason d' removed stops =>
    have one : inv'.keys.length + 1 = w.inventory.keys.length := by
      have known : name ∈ w.inventory.keyNames := by
        by_contra missing
        cases removed.symm.trans (removeKey_eq_error_iff.mpr (.inl ⟨missing, rfl⟩))
      obtain ⟨_, _, _, rfl⟩ := removeKey_eq_ok removed
      exact length_keys_dropKey known
    constructor
    · refine iff_of_false ?_ fun other => other reason rfl
      rintro ⟨same, -⟩
      dsimp only at same
      rw [same] at one
      omega
    · rintro _ ⟨⟩
      refine ⟨rfl, k, removed, one, ?_⟩
      rcases deletionStops_filesToDelete_iff.mp stops with ⟨-, stuck, same⟩ | ⟨managed, gone, stuck⟩
      · exact .inl ⟨same, stuck⟩
      · exact .inr ⟨managed, gone, stuck⟩

/-- A fresh world in which the key `work` has been made, and a directory has taken the place of its private
file. -/
def blockedWorld : World :=
  let made := (Request.generate ⟨"work", .ed25519, none, none, none, none, []⟩ ⟨0, 0⟩).after "vault"
    Request.freshWorld
  { made with disk := (made.disk.erase ["vault", "keys", "work"]).put ["vault", "keys", "work"] (.directory 0o755) }

/-- The removal of `work` fails there, and leaves neither its record nor its public file. -/
theorem removeKey_undone_iff_of_blockedWorld : ∃ w',
    outcome (removeKey "vault" "work" false true) blockedWorld = (.error (.fileAccess .isDirectory), w') ∧
      blockedWorld.inventory.keyNames = ["work"] ∧ blockedWorld.disk.exists_ "vault/keys/work.pub" = true ∧
      w'.inventory.keyNames = [] ∧ w'.disk.exists_ "vault/keys/work.pub" = false ∧
      ¬ (w'.inventory = blockedWorld.inventory ∧ w'.disk = blockedWorld.disk) := by
  have facts : (outcome (removeKey "vault" "work" false true) blockedWorld).1 = .error (.fileAccess .isDirectory) ∧
      blockedWorld.inventory.keyNames = ["work"] ∧ blockedWorld.disk.exists_ "vault/keys/work.pub" = true ∧
      (outcome (removeKey "vault" "work" false true) blockedWorld).2.inventory.keyNames = [] ∧
      (outcome (removeKey "vault" "work" false true) blockedWorld).2.disk.exists_ "vault/keys/work.pub" = false := by
    decide +kernel
  rcases run : outcome (removeKey "vault" "work" false true) blockedWorld with ⟨result, w'⟩
  rw [run] at facts
  obtain ⟨stuck, known, there, gone, deleted⟩ := facts
  dsimp only at stuck
  subst stuck
  refine ⟨w', rfl, known, there, gone, deleted, fun same => ?_⟩
  exact (removeKey_undone_iff run).1.mp same .isDirectory rfl

end Lifecycle

end Keyring

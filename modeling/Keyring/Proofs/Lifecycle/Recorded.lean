import Keyring.Proofs.Inventory.Edits
import Keyring.Proofs.Lifecycle.Making
import Keyring.Proofs.Lifecycle.Removal
import Keyring.Proofs.Lifecycle.Writing

/-!
# Files on record

Which files an inventory names after each operation. A path that comes on record
does not end at a link: it is a name in the directory of keys, or the canonical
path of a file.
-/

namespace Keyring

namespace Inventory

variable {inv inv' : Inventory} {name : String} {f : Path}

def files (inv : Inventory) : List Path := inv.keys.flatMap fun k => [k.privateFile, k.publicFile]

theorem mem_files_iff : f ∈ inv.files ↔ ∃ k ∈ inv.keys, f = k.privateFile ∨ f = k.publicFile := by
  simp [files]

theorem files_addKey (k : Key) :
    files { inv with keys := inv.keys ++ [k] } = inv.files ++ [k.privateFile, k.publicFile] := by
  simp [files]

theorem files_changeKey {change : Key → Key} (privateFile : ∀ k, (change k).privateFile = k.privateFile)
    (publicFile : ∀ k, (change k).publicFile = k.publicFile) :
    (inv.changeKey name change).files = inv.files := by
  have same : ∀ k, [(change k).privateFile, (change k).publicFile] = [k.privateFile, k.publicFile] := by
    intro k
    rw [privateFile, publicFile]
  rw [files, files, List.flatMap_def, List.flatMap_def]
  exact congrArg List.flatten (map_changeFirst same _)

theorem mem_files_of_dropKey (member : f ∈ (inv.dropKey name).files) : f ∈ inv.files := by
  obtain ⟨k, inside, isFile⟩ := mem_files_iff.mp member
  obtain ⟨k, erased, rfl⟩ := List.mem_map.mp inside
  exact mem_files_iff.mpr ⟨k, List.mem_of_mem_eraseP erased, isFile⟩

end Inventory

namespace Lifecycle

open Op World Disk Inventory Time

variable {vault f : Path} {names : List String} {name : String} {w w' : World}

theorem mem_files_of_doomed {force deleteFiles : Bool} (member : f ∈ doomed vault w name force deleteFiles) :
    f ∈ w.inventory.files := by
  unfold doomed at member
  split at member
  · rename_i k inv' removed
    split at member
    · obtain ⟨old, known, rfl, rfl⟩ := removeKey_eq_ok removed
      have inside : f ∈ (unlinkKey name old).publicFile ::
          (if (unlinkKey name old).managed then [(unlinkKey name old).privateFile] else []) :=
        List.mem_of_mem_filter member
      refine mem_files_iff.mpr ⟨old, known, ?_⟩
      rcases List.mem_cons.mp inside with rfl | inside
      · exact .inr rfl
      · split at inside
        · exact .inl (List.mem_singleton.mp inside)
        · cases inside
    · cases member
  · cases member

theorem mem_files_of_removal {force deleteFiles : Bool}
    (member : f ∈ (outcome (removeKey vault name force deleteFiles) w).2.inventory.files) :
    f ∈ w.inventory.files := by
  have inventory := removeKey_inventory vault name force deleteFiles w
  rcases removed : w.inventory.removeKey name force with e | ⟨k, inv'⟩
  · simp only [removed] at inventory
    rwa [inventory] at member
  · simp only [removed] at inventory
    rw [inventory] at member
    obtain ⟨old, _, _, rfl⟩ := removeKey_eq_ok removed
    exact mem_files_of_dropKey member

/-- The paths of a name in the directory of keys come on record. -/
def Records (vault : Path) (inv inv' : Inventory) : Prop :=
  ∃ name, Name.isName name = true ∧
    inv'.files = inv.files ++ [Layout.privateFile vault name, Layout.publicFile vault name]

theorem records_of_enters {vault : Path} {inv inv' : Inventory} {name : String} {k : Key}
    (entered : Enters inv name k inv') (privateFile : k.privateFile = Layout.privateFile vault name)
    (publicFile : k.publicFile = Layout.publicFile vault name) : Records vault inv inv' := by
  refine ⟨name, entered.isName, ?_⟩
  rw [entered.added, files_addKey, privateFile, publicFile]

theorem generate_records (vault : Path) (req : NewKey) (now : Instant) (inv : Inventory) :
    Commits inv (fun _ inv' => Records vault inv inv') (generate vault req now) :=
  (generate_commits vault req now inv).mono fun _ _ makes =>
    records_of_enters makes.enters makes.privateFile makes.publicFile

theorem files_linkRotation (inv : Inventory) (old new : String) :
    (linkRotation inv old new).files = inv.files := by
  have marked : (inv.changeKey old fun k => { k with status := .rotated, rotatedTo := some new }).files =
      inv.files := files_changeKey (fun _ => rfl) fun _ => rfl
  have linked : ∀ inv' : Inventory, (inv'.changeKey new fun k => { k with rotatedFrom := some old }).files =
      inv'.files := fun inv' => files_changeKey (fun _ => rfl) fun _ => rfl
  exact (linked _).trans marked

theorem rotate_records (vault : Path) (req : Rotation) (now : Instant) (inv : Inventory) :
    Commits inv (fun _ inv' => Records vault inv inv') (rotate vault req now) := by
  refine commits_rotate fun old newName made mid active makes => ?_
  obtain ⟨name, isName, added⟩ := records_of_enters makes.enters makes.privateFile makes.publicFile
  exact ⟨name, isName, (files_linkRotation _ _ _).trans added⟩

/-- How a key was taken in: its files were canonical paths at the end, of what was given and of what was
found or kept. -/
structure TakenIn (vault : Path) (req : ImportedKey) (w : World) (k : Key) (w' : World) : Prop where
  isName : Name.isName req.name = true
  name : k.name = req.name
  isFile : w.disk.isFile req.privateFile = true
  kept : ∃ line found pub publicFile t t', outcome (publicLineOf req) w = (.ok (line, found), t) ∧
    outcome (keepPublicFile vault req.name pub found) t = (.ok publicFile, t') ∧
    w'.disk = t'.disk ∧ k.publicLine = pub.line ∧
    k.publicFile = w'.disk.canonicalOrSame publicFile
  privateFile : k.privateFile = w'.disk.canonicalOrSame req.privateFile
  keys : w'.inventory.keys = w.inventory.keys ++ [k]

theorem isFile_of_checkImport {inv : Inventory} {d : Disk} {req : ImportedKey}
    (checked : checkImport inv d req = .ok ()) : d.isFile req.privateFile = true := by
  simp only [checkImport, bind, Except.bind] at checked
  split at checked
  · cases checked
  split at checked
  · cases checked
  split at checked
  · cases checked
  · rename_i there
    simpa using there

theorem takenIn_of_importKey {req : ImportedKey} {now : Instant} {k : Key}
    (run : outcome (importKey vault req now) w = (.ok k, w')) : TakenIn vault req w k w' := by
  have committed := importKey_commits vault req now w.inventory w rfl
  rw [run] at committed
  have keys : w'.inventory.keys = w.inventory.keys ++ [k] := by rw [committed.enters.added]
  obtain ⟨pub, publicFile, t', createdAt, due, taken, aged, counted, rfl, rfl⟩ := of_importKey_ok run
  obtain ⟨checked, -, line, found, t, asked, read, new, kept⟩ := of_takePair_ok taken
  exact ⟨isName_of_checkImport checked, rfl, isFile_of_checkImport checked,
    ⟨line, found, pub, publicFile, t, t', asked, kept, rfl, rfl, rfl⟩, rfl, keys⟩

/-- The copy of a public half is what its path leads to. -/
theorem find_of_keepPublicFile {pub : PublicKey} {publicFile : Path} (isName : Name.isName name = true)
    (sound : w.disk.WellFormed) (tidy : Tidy vault w.disk)
    (run : outcome (keepPublicFile vault name pub none) w = (.ok publicFile, w')) :
    publicFile = Layout.publicFile vault name ∧ ∃ at_ modified,
      w'.disk.find true publicFile = .ok (at_, .file (.text (pub.line ++ "\n")) privateFileMode modified) := by
  cases shelves_of_keepPublicFile sound isName run with
  | @copied paved _ paves replaces =>
    refine ⟨rfl, ?_⟩
    have writes : Writes vault [] w.disk paved := .of_grows tidy paves.grows
    obtain ⟨at_, led, notDir, put⟩ := replaces.replaced
    obtain ⟨notLink, ledThrough⟩ := writes.tidy.place_true paves.grows.sound (Name.isName_public isName) led
    have later := replaces.later paves.grows.sound led notLink
    refine ⟨at_, paved.clock, find_eq_ok_iff.mpr ⟨later.place ledThrough, ?_⟩⟩
    rw [put, entryAt_put_self (ne_nil_of_notDirectory notDir)]
    rfl

namespace TakenIn

variable {req : ImportedKey} {k : Key} {now : Instant}

/-- A copy that is kept is the public half of the new record. -/
theorem find_copy (taken : TakenIn vault req w k w') (sound : w.disk.WellFormed) (tidy : Tidy vault w.disk)
    (copies : keepsCopy w.disk req = true) :
    k.publicFile = w'.disk.canonicalOrSame (Layout.publicFile vault req.name) ∧ ∃ at_ modified,
      w'.disk.find true (Layout.publicFile vault req.name) =
        .ok (at_, .file (.text (k.publicLine ++ "\n")) privateFileMode modified) := by
  obtain ⟨line, found, pub, publicFile, t, t', lineRun, keepRun, disk, publicLine, path⟩ := taken.kept
  have noneFound := (supplies_iff.mpr lineRun).found_eq
  rw [if_pos copies] at noneFound
  subst noneFound
  have before : WritesTo vault [] w t := by
    have written : WritesTo vault [] w (outcome (publicLineOf req) w).2 := writesTo_publicLineOf req w
    rwa [lineRun] at written
  have kept : WritesTo vault [req.name ++ ".pub"] t (outcome (keepPublicFile vault req.name pub none) t).2 :=
    writesTo_keepPublicFile_none taken.isName pub t
  rw [keepRun] at kept
  have written := before sound tidy
  obtain ⟨rfl, at_, modified, there⟩ :=
    find_of_keepPublicFile taken.isName written.later.sound written.tidy keepRun
  rw [← disk, ← publicLine] at there
  exact ⟨path, at_, modified, there⟩

/-- Without a copy, the public half is the file that was found. -/
theorem publicFile_found (taken : TakenIn vault req w k w') (copies : keepsCopy w.disk req = false) :
    k.publicFile = w'.disk.canonicalOrSame (req.privateFile ++ ".pub") := by
  obtain ⟨line, found, pub, publicFile, t, t', lineRun, keepRun, _, _, path⟩ := taken.kept
  have whichFound := (supplies_iff.mpr lineRun).found_eq
  rw [if_neg (by simp [copies])] at whichFound
  subst whichFound
  cases keepRun
  exact path

theorem isFile_later (taken : TakenIn vault req w k w') (sound : w.disk.WellFormed) (tidy : Tidy vault w.disk)
    (writes : Writes vault (copyNames w.disk req) w.disk w'.disk) {p : Path}
    (isFile : w.disk.isFile p = true) : w'.disk.isFile p = true := by
  obtain ⟨at_, e, found, file⟩ := isFile_iff.mp isFile
  obtain ⟨led, entry⟩ := find_eq_ok_iff.mp found
  have ledAfter := writes.later.place led
  by_cases here : InKeys vault (copyNames w.disk req) w'.disk at_
  · obtain ⟨name, member, ledName⟩ := here
    unfold copyNames at member
    split at member
    · rename_i copies
      rw [List.mem_singleton.mp member] at ledName
      obtain ⟨_, there, modified, foundCopy⟩ := taken.find_copy sound tidy copies
      obtain ⟨ledCopy, entryCopy⟩ := find_eq_ok_iff.mp foundCopy
      rw [Layout.publicFile, ledName] at ledCopy
      cases ledCopy
      exact isFile_iff.mpr ⟨at_, _, find_eq_ok_iff.mpr ⟨ledAfter, entryCopy⟩, rfl⟩
    · cases member
  · exact isFile_iff.mpr ⟨at_, e, find_eq_ok_iff.mpr ⟨ledAfter, (writes.later.files at_ here e file).mpr entry⟩, file⟩

theorem unlinked (taken : TakenIn vault req w k w') (sound : w.disk.WellFormed) (tidy : Tidy vault w.disk)
    (writes : Writes vault (copyNames w.disk req) w.disk w'.disk) :
    Unlinked w'.disk k.privateFile ∧ Unlinked w'.disk k.publicFile := by
  have canonical : ∀ p, w'.disk.isFile p = true → Unlinked w'.disk (w'.disk.canonicalOrSame p) := by
    intro p isFile
    obtain ⟨at_, e, found, file⟩ := isFile_iff.mp isFile
    exact unlinked_canonicalOrSame writes.later.sound found file
  rw [taken.privateFile]
  refine ⟨canonical _ (taken.isFile_later sound tidy writes taken.isFile), ?_⟩
  rcases copies : keepsCopy w.disk req with _ | _
  · rw [taken.publicFile_found copies]
    refine canonical _ (taken.isFile_later sound tidy writes ?_)
    simp only [keepsCopy, Bool.or_eq_false_iff] at copies
    simpa using copies.2
  · obtain ⟨path, at_, modified, found⟩ := taken.find_copy sound tidy copies
    rw [path]
    exact canonical _ (isFile_iff.mpr ⟨at_, _, found, rfl⟩)

end TakenIn

end Lifecycle

end Keyring

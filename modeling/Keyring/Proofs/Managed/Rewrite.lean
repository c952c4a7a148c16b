import Keyring.Managed.Sync
import Keyring.Proofs.Managed.Backup

/-!
# Rewriting a configuration

A configuration that is rewritten holds the new text, wherever links lead. It can
be rewritten where its text can be kept beside it (`CanSave`).
-/

namespace Keyring.Managed

open Disk Text

variable {d d' : Disk} {p : Path}

/-- Where the directory of a path is there, or what is taken for it, nothing is prepared. -/
theorem outcome_prepareParent_of_exists (there : parentOf p = "" ∨ d.exists_ (parentOf p) = true) :
    outcome (prepareParent p) d = (.ok (), d) := by
  rw [parentOf] at there
  rw [prepareParent]
  rcases found : Path.parent? p with _ | parent
  · rfl
  · rw [found, Option.getD_some] at there
    dsimp only
    rw [outcome_bind, outcome_get]
    dsimp only
    rcases there with rfl | known
    · rfl
    · rw [if_neg (by simp [known])]
      rfl

theorem exists_of_isDirectory (isDir : d.isDirectory p = true) : d.exists_ p = true := by
  obtain ⟨at_, led, isDirAt⟩ := isDirectory_iff.mp isDir
  obtain ⟨mode, entry⟩ := isDirectoryAt_iff.mp isDirAt
  exact exists_iff.mpr ⟨at_, _, led, entry⟩

theorem outcome_prepareParent (there : parentOf p = "" ∨ d.isDirectory (parentOf p) = true) :
    outcome (prepareParent p) d = (.ok (), d) :=
  outcome_prepareParent_of_exists (there.imp_right exists_of_isDirectory)

theorem keeps_prepareParent (p : Path) : Keeps (fun _ => True) (prepareParent p) := by
  unfold prepareParent
  split
  · refine Keeps.bind Keeps.get fun d => ?_
    split
    · refine Keeps.bind (keeps_ensureDirectory _) fun _ d sound => ?_
      exact (keeps_setMode sound).evolves
    · exact Keeps.pure _
  · exact Keeps.pure _

/-- The text of a configuration can be kept beside it, and the configuration written: at the path
of the backup is a file or nothing, and the canonical path is no longer than a path can be. -/
structure CanSave (d : Disk) (p : Path) : Prop where
  room : ∃ at_, d.place false (Layout.backupFile p) = .ok at_ ∧
    ∀ e, d.entryAt at_ = some e → e.isFile = true
  short : ∀ q, d.canonical p = .ok q → utf8Length q ≤ longestPath

/-- What is written to the path of such a place changes no file anywhere else. -/
theorem keeps_writeCanonical {goal : Place} {content : Content} {mode : Nat} (sound : d.WellFormed)
    (led : d.place true p = .ok goal) :
    Later (· = goal) d (outcome (writeWholeWithMode (pathOf goal) content mode) d).2 := by
  by_cases faultless : pathFault? (pathOf goal) = none
  · exact keeps_writeWholeWithMode sound (place_canonical sound led faultless) (sound.notLink_of_place led)
  · rw [writeWholeWithMode, outcome_bind]
    obtain ⟨d₁, ⟨grows, _⟩, ⟨_, _, replaces⟩ | ⟨e, failed⟩⟩ := outcome_writeWhole sound (pathOf goal) content
    · obtain ⟨_, led', _⟩ := replaces.replaced
      exact absurd (place_eq_ok_iff.mp led').1 faultless
    · rw [failed]
      exact grows.later

/-- A configuration that is there is written at its place, and the rest of the disk stays. -/
theorem later_of_writeCanonical {goal at_ : Place} {e file : Entry} {content : Content} {mode : Nat}
    (sound : d.WellFormed) (there : d.find true p = .ok (goal, e))
    (done : outcome (writeWholeWithMode (pathOf goal) content mode) d = (.ok (), d'))
    (found : d'.find true (pathOf goal) = .ok (at_, file)) :
    at_ = goal ∧ Later (· = goal) d d' := by
  have led := (find_eq_ok_iff.mp there).1
  have again := (find_eq_ok_iff.mp found).1
  have later : Later (· = goal) d (outcome (writeWholeWithMode (pathOf goal) content mode) d).2 :=
    keeps_writeCanonical sound led
  rw [done] at later
  rw [later.place (place_canonical sound led (place_eq_ok_iff.mp again).1)] at again
  exact ⟨(Except.ok.inj again).symm, later⟩

/-- A configuration that was written holds the new text. -/
theorem find_of_writeTarget {target : Path} {content : Content} (sound : d.WellFormed)
    (aimed : targetOf d p = .ok target)
    (done : outcome (writeWholeWithMode target content privateFileMode) d = (.ok (), d')) :
    d'.WellFormed ∧ ∃ at_ modified, d'.find true p = .ok (at_, .file content privateFileMode modified) := by
  obtain ⟨sound', at_, modified, found, _⟩ := found_of_writeWholeWithMode sound done
  refine ⟨sound', at_, modified, ?_⟩
  rw [targetOf] at aimed
  split at aimed
  · -- the configuration was there
    rename_i q canonical
    obtain rfl := Except.ok.inj aimed
    obtain ⟨goal, e, there, rfl⟩ := canonical_eq_ok_iff.mp canonical
    obtain ⟨rfl, later⟩ := later_of_writeCanonical sound there done found
    exact find_eq_ok_iff.mpr
      ⟨later.place (find_eq_ok_iff.mp there).1, (find_eq_ok_iff.mp found).2⟩
  · obtain rfl := Except.ok.inj aimed
    exact found
  · cases aimed

/-- The new text written where the configuration is, with the path of the backup as the answer. -/
def writeTarget (p : Path) (new : String) (backup : Option Path) : DiskM (Option Path) := do
  let target ← Disk.ask (targetOf · p)
  writeWholeWithMode target (.text new) privateFileMode
  return backup

theorem replaceText_none (p : Path) (new : String) :
    replaceText p none new = prepareParent p >>= fun _ => writeTarget p new none := rfl

theorem replaceText_some (p : Path) (text new : String) :
    replaceText p (some text) new = prepareParent p >>= fun _ =>
      writeWholeWithMode (Layout.backupFile p) (.text text) privateFileMode >>= fun _ =>
        writeTarget p new (some (Layout.backupFile p)) := rfl

/-- Where a configuration is there, its former text is kept and the new one written. -/
theorem outcome_replaceText_some {text : String} (sound : d.WellFormed) (read : d.readText p = .ok text)
    (new : String) : outcome (replaceText p (some text) new) d =
      outcome (writeWholeWithMode (Layout.backupFile p) (.text text) privateFileMode >>= fun _ =>
        writeTarget p new (some (Layout.backupFile p))) d := by
  obtain ⟨goal, mode, modified, found⟩ := find_of_readText read
  have named := checkFileName_of_file sound found rfl
  have there := parent_isDirectory named (find_eq_ok_iff.mp found).1
  rw [replaceText_some, outcome_bind, outcome_prepareParent there]

theorem writeTarget_spec {new : String} {backup backup' : Option Path}
    (done : outcome (writeTarget p new backup) d = (.ok backup', d')) :
    backup' = backup ∧ ∃ target, targetOf d p = .ok target ∧
      outcome (writeWholeWithMode target (.text new) privateFileMode) d = (.ok (), d') := by
  rw [writeTarget] at done
  obtain ⟨target, d₁, asked, rest⟩ := of_outcome_bind_ok done
  obtain ⟨_, d₂, written, last⟩ := of_outcome_bind_ok rest
  rw [outcome_ask] at asked
  obtain ⟨aimed, rfl⟩ := Prod.mk.inj asked
  rw [outcome_pure] at last
  obtain ⟨answer, rfl⟩ := Prod.mk.inj last
  exact ⟨(Except.ok.inj answer).symm, target, aimed, written⟩

/-- A configuration that was there is written where its path leads, also when a file has come. -/
theorem target_of_differs {goal kept : Place} {e : Entry} {target : Path} (differs : Differs kept d d')
    (found : d.find true p = .ok (goal, e)) (aimed : targetOf d' p = .ok target) :
    ∃ here e', d'.find true p = .ok (here, e') ∧ target = pathOf here := by
  rw [targetOf] at aimed
  split at aimed
  · rename_i q canonical
    obtain rfl := Except.ok.inj aimed
    exact canonical_eq_ok_iff.mp canonical
  · rename_i lost
    exact absurd (canonical_eq_error_iff.mp lost) (find_of_differs differs found)
  · cases aimed

/-- Where the former text was kept and the new one written, the new one can be kept in turn. -/
theorem canSave_of_saved {text new : String} {d₁ : Disk} {target : Path} (sound : d.WellFormed)
    (read : d.readText p = .ok text)
    (saved : outcome (writeWholeWithMode (Layout.backupFile p) (.text text) privateFileMode) d = (.ok (), d₁))
    (aimed : targetOf d₁ p = .ok target)
    (done : outcome (writeWholeWithMode target (.text new) privateFileMode) d₁ = (.ok (), d')) :
    CanSave d' p := by
  obtain ⟨goal, mode, modified, found⟩ := find_of_readText read
  obtain ⟨sound₁, at_, modified', backup, stopped, d₀, ⟨grows, _⟩, differs⟩ :=
    found_of_writeWholeWithMode sound saved
  have stillThere : ∃ e, d₀.find true p = .ok (goal, e) := by
    obtain ⟨led, entry⟩ := find_eq_ok_iff.mp found
    exact ⟨_, find_eq_ok_iff.mpr ⟨grows.place led, (grows.files goal (fun h => h) _ rfl).mpr entry⟩⟩
  obtain ⟨e, stillThere⟩ := stillThere
  obtain ⟨goal', e', there, rfl⟩ := target_of_differs differs stillThere aimed
  obtain ⟨_, at', _, foundTarget, _⟩ := found_of_writeWholeWithMode sound₁ done
  obtain ⟨rfl, later⟩ := later_of_writeCanonical sound₁ there done foundTarget
  refine ⟨⟨at_, later.place stopped, ?_⟩, ?_⟩
  · intro e entry
    by_cases same : at_ = at'
    · subst same
      rw [(find_eq_ok_iff.mp foundTarget).2] at entry
      cases entry
      rfl
    · have backupThere := (later.files at_ same _ rfl).mpr (find_eq_ok_iff.mp backup).2
      rw [backupThere] at entry
      cases entry
      rfl
  · intro q canonical'
    obtain ⟨goal'', _, there', rfl⟩ := canonical_eq_ok_iff.mp canonical'
    have same := (find_eq_ok_iff.mp there').1
    rw [later.place (find_eq_ok_iff.mp there).1] at same
    obtain rfl := Except.ok.inj same
    exact short_of_faultless (place_eq_ok_iff.mp (find_eq_ok_iff.mp foundTarget).1).1

/-- A text put in place of another is what the configuration holds. Where the former text was kept,
the new one can be kept in turn. -/
theorem replaceText_spec {old : Option String} {new : String} {backup : Option Path}
    (sound : d.WellFormed) (readable : ∀ s, old = some s → d.readText p = .ok s)
    (done : outcome (replaceText p old new) d = (.ok backup, d')) :
    d'.WellFormed ∧ (∃ at_ modified, d'.find true p = .ok (at_, .file (.text new) privateFileMode modified)) ∧
      (backup.isSome = true → CanSave d' p) := by
  rcases old with _ | text
  · rw [replaceText_none] at done
    obtain ⟨_, d₀, prepared, done⟩ := of_outcome_bind_ok done
    have kept := keeps_prepareParent p d sound
    rw [prepared] at kept
    obtain ⟨rfl, target, aimed, written⟩ := writeTarget_spec done
    obtain ⟨sound', holds⟩ := find_of_writeTarget kept.sound aimed written
    exact ⟨sound', holds, fun h => by cases h⟩
  · rw [outcome_replaceText_some sound (readable text rfl)] at done
    obtain ⟨_, d₁, saved, done⟩ := of_outcome_bind_ok done
    obtain ⟨sound₁, _⟩ := found_of_writeWholeWithMode sound saved
    obtain ⟨rfl, target, aimed, written⟩ := writeTarget_spec done
    obtain ⟨sound', holds⟩ := find_of_writeTarget sound₁ aimed written
    exact ⟨sound', holds, fun _ => canSave_of_saved sound (readable text rfl) saved aimed written⟩

/-- A configuration whose text can be kept can be given a new one. -/
theorem replaceText_succeeds {text new : String} (sound : d.WellFormed) (read : d.readText p = .ok text)
    (canSave : CanSave d p) :
    ∃ d', outcome (replaceText p (some text) new) d = (.ok (some (Layout.backupFile p)), d') := by
  obtain ⟨goal, mode, modified, found⟩ := find_of_readText read
  obtain ⟨led, entry⟩ := find_eq_ok_iff.mp found
  have notRoot : goal ≠ [] := by
    rintro rfl
    cases entry
  have fits := sound.fits goal _ entry notRoot
  obtain ⟨at_, room, free⟩ := canSave.room
  have named := checkFileName_backupFile p
  obtain ⟨d₁, saved⟩ : ∃ d₁,
      outcome (writeWholeWithMode (Layout.backupFile p) (.text text) privateFileMode) d = (.ok (), d₁) :=
    writeWholeWithMode_succeeds sound (parent_isDirectory named room) named room free
  have notLink : ∀ t, d.entryAt at_ ≠ some (.link t) := by
    intro t backup
    cases free _ backup
  have later : Later (· = at_) d d₁ := by
    have kept : Later (· = at_) d
        (outcome (writeWholeWithMode (Layout.backupFile p) (.text text) privateFileMode) d).2 :=
      keeps_writeWholeWithMode sound room notLink
    rwa [saved] at kept
  obtain ⟨_, at', modified', backup, _⟩ := found_of_writeWholeWithMode sound saved
  have stillFile : ∃ e, d₁.entryAt goal = some e ∧ e.isFile = true := by
    have backupAt := later.place (place_true_of_notLink room notLink)
    rw [(find_eq_ok_iff.mp backup).1] at backupAt
    obtain rfl := Except.ok.inj backupAt
    by_cases same : goal = at'
    · exact ⟨_, same ▸ (find_eq_ok_iff.mp backup).2, rfl⟩
    · exact ⟨_, (later.files goal same _ rfl).mpr entry, rfl⟩
  obtain ⟨e, entry₁, isFile⟩ := stillFile
  have found₁ : d₁.find true p = .ok (goal, e) := find_eq_ok_iff.mpr ⟨later.place led, entry₁⟩
  have aimed : targetOf d₁ p = .ok (pathOf goal) := by
    rw [targetOf, canonical_eq_ok_iff.mpr ⟨goal, e, found₁, rfl⟩]
  have short := canSave.short _ (canonical_eq_ok_iff.mpr ⟨goal, _, found, rfl⟩)
  have fits₁ := later.fits fits
  have placed : d₁.place false (pathOf goal) = .ok goal :=
    place_pathOf later.sound fits₁ (notLink_of_file entry₁ isFile) (faultless_pathOf sound fits short)
  have named₁ := checkFileName_pathOf later.sound fits₁
  obtain ⟨d₂, written⟩ : ∃ d₂,
      outcome (writeWholeWithMode (pathOf goal) (.text new) privateFileMode) d₁ = (.ok (), d₂) := by
    refine writeWholeWithMode_succeeds later.sound (parent_isDirectory named₁ placed) named₁ placed ?_
    intro e' entry'
    rw [entry₁] at entry'
    cases entry'
    exact isFile
  refine ⟨d₂, ?_⟩
  rw [outcome_replaceText_some sound read, outcome_bind, saved]
  dsimp only
  rw [writeTarget, outcome_bind, outcome_ask, aimed]
  dsimp only
  rw [outcome_bind, written]
  rfl

end Keyring.Managed

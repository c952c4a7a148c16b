import Keyring.Proofs.Disk.Canonical
import Keyring.Proofs.Disk.Vacancy

/-!
# Paths that go on leading where they led

Between two states of a disk no path is cut off and nothing goes but links that led nowhere (`Stays`),
when directories are made, when a directory is kept to its owner, and when a file comes to a vacant
place.
-/

namespace Keyring.Disk

variable {d d' d'' : Disk} {through : Bool} {at_ goal : Place} {p : Path} {e : Entry} {mode : Nat}

/-- The path leads to a directory that is open to its owner only; the root is what it is. -/
def OwnersOnly (d : Disk) (p : Path) : Prop :=
  ∃ at_, d.place true p = .ok at_ ∧ (at_ = [] ∨ d.entryAt at_ = some (.directory 0o700))

theorem OwnersOnly.isDirectory (owners : OwnersOnly d p) : d.isDirectory p = true := by
  obtain ⟨at_, led, rfl | entry⟩ := owners
  · exact isDirectory_iff.mpr ⟨[], led, rfl⟩
  · exact isDirectory_iff.mpr ⟨at_, led, isDirectoryAt_of_entryAt entry⟩

/-! ## What stays -/

/-- Paths that led to something lead there still. No directory and no file has gone and no link has come, and the
permissions of a directory are what they were, or its owner's only. -/
structure Stays (d d' : Disk) : Prop where
  sound : d'.WellFormed
  paths : ∀ p at_, d.place true p = .ok at_ → d.entryAt at_ ≠ none → d'.place true p = .ok at_
  directories : ∀ at_ mode, d.entryAt at_ = some (.directory mode) →
    d'.entryAt at_ = some (.directory mode) ∨ d'.entryAt at_ = some (.directory 0o700)
  files : ∀ at_ e, d.entryAt at_ = some e → e.isFile = true → ∃ e', d'.entryAt at_ = some e' ∧ e'.isFile = true
  links : ∀ at_ t, d'.entryAt at_ = some (.link t) → d.entryAt at_ = some (.link t)

namespace Stays

theorem refl (sound : d.WellFormed) : Stays d d :=
  ⟨sound, fun _ _ led _ => led, fun _ _ entry => .inl entry, fun _ e entry isFile => ⟨e, entry, isFile⟩,
    fun _ _ link => link⟩

theorem there (stays : Stays d d') (sound : d.WellFormed) (led : d.place true p = .ok at_)
    (some : d.entryAt at_ ≠ none) : d'.entryAt at_ ≠ none := by
  obtain ⟨e, entry⟩ := Option.ne_none_iff_exists'.mp some
  cases e with
  | file content m modified =>
    obtain ⟨e', entry', -⟩ := stays.files at_ _ entry rfl
    simp [entry']
  | directory m =>
    rcases stays.directories at_ m entry with entry' | entry' <;> simp [entry']
  | link t => exact absurd entry (sound.notLink_of_place led t)

theorem trans (first : Stays d d') (second : Stays d' d'') (sound : d.WellFormed) : Stays d d'' where
  sound := second.sound
  paths := fun p at_ led some => second.paths p at_ (first.paths p at_ led some) (first.there sound led some)
  directories := by
    intro at_ m entry
    rcases first.directories at_ m entry with same | owners
    · exact second.directories at_ m same
    · exact .inr (by simpa using second.directories at_ _ owners)
  files := by
    intro at_ e entry isFile
    obtain ⟨e', entry', isFile'⟩ := first.files at_ e entry isFile
    exact second.files at_ e' entry' isFile'
  links := fun at_ t link => first.links at_ t (second.links at_ t link)

theorem exists_ (stays : Stays d d') (sound : d.WellFormed) (there : d.exists_ p = true) : d'.exists_ p = true := by
  obtain ⟨at_, e, led, entry⟩ := exists_iff.mp there
  have some : d.entryAt at_ ≠ none := by simp [entry]
  obtain ⟨e', entry'⟩ := Option.ne_none_iff_exists'.mp (stays.there sound led some)
  exact exists_iff.mpr ⟨at_, e', stays.paths p at_ led some, entry'⟩

theorem ownersOnly (stays : Stays d d') (owners : OwnersOnly d p) : OwnersOnly d' p := by
  obtain ⟨at_, led, rfl | entry⟩ := owners
  · exact ⟨[], stays.paths p [] led nofun, .inl rfl⟩
  · refine ⟨at_, stays.paths p at_ led (by simp [entry]), .inr ?_⟩
    simpa using stays.directories at_ _ entry

end Stays

theorem Paves.stays (paves : Paves p d d') : Stays d d' where
  sound := paves.grows.sound
  paths := fun _ _ led _ => paves.grows.place led
  directories := by
    intro at_ m entry
    rcases paves.entry at_ with same | ⟨free, -⟩
    · exact .inl (same.trans entry)
    · rw [entry] at free
      cases free
  files := fun at_ e entry isFile => ⟨e, (paves.grows.files at_ id e isFile).mpr entry, isFile⟩
  links := fun at_ t => (paves.grows.links at_ t).mp

theorem stays_setMode (sound : d.WellFormed) (found : d.find true p = .ok (at_, .directory mode)) : ∃ d',
    outcome (setMode p 0o700) d = (.ok (), d') ∧ Grows d d' ∧ Stays d d' ∧ OwnersOnly d' p := by
  obtain ⟨led, entry⟩ := find_eq_ok_iff.mp found
  rw [outcome_setMode sound, found]
  dsimp only
  by_cases root : at_ = []
  · rw [if_pos root]
    exact ⟨d, rfl, .refl sound, .refl sound, at_, led, .inl root⟩
  · rw [if_neg root]
    have grows : Grows d (d.put at_ (withMode 0o700 (.directory mode))) := by
      refine Grows.putDirectory sound (sound.fits at_ _ entry root) fun e' entry' => ?_
      rw [entry] at entry'
      obtain rfl := Option.some.inj entry'
      rfl
    refine ⟨_, rfl, grows, ?_, at_, grows.place led, .inr (entryAt_put_self root)⟩
    exact {
      sound := grows.sound
      paths := fun _ _ led _ => grows.place led
      directories := by
        intro here m entry'
        by_cases same : here = at_
        · rw [same]
          exact .inr (entryAt_put_self root)
        · exact .inl ((entryAt_put_of_ne root same).trans entry')
      files := fun here e entry' isFile => ⟨e, (grows.files here id e isFile).mpr entry', isFile⟩
      links := fun here t => (grows.links here t).mp }

/-- A directory is made, and kept to its owner. -/
def keepDirectory (p : Path) : DiskM Unit := do
  ensureDirectory p
  setMode p 0o700

theorem stays_keepDirectory (sound : d.WellFormed) (done : outcome (keepDirectory p) d = (.ok (), d')) :
    Grows d d' ∧ Stays d d' ∧ OwnersOnly d' p := by
  obtain ⟨_, d₁, ensured, kept⟩ := of_outcome_bind_ok done
  have paves := paving_ensureDirectory p d sound
  rw [ensured] at paves
  cases found : d₁.find true p with
  | error e =>
    rw [outcome_setMode paves.grows.sound, found] at kept
    cases kept
  | ok there =>
    obtain ⟨at_, e⟩ := there
    obtain ⟨led, entry⟩ := find_eq_ok_iff.mp found
    have some : p ≠ "" := by
      rintro rfl
      cases led
    obtain ⟨here, led', isDir⟩ := isDirectory_iff.mp (isDirectory_of_ensureDirectory sound some ensured)
    obtain rfl := Except.ok.inj ((place_withoutEndSlashes led).symm.trans led')
    obtain ⟨mode, isThere⟩ := isDirectoryAt_iff.mp isDir
    obtain ⟨d₂, run, grows, stays, owners⟩ := stays_setMode paves.grows.sound
      (find_eq_ok_iff.mpr ⟨led, isThere⟩)
    rw [kept] at run
    obtain rfl := (Prod.mk.inj run).2
    exact ⟨paves.grows.trans grows, paves.stays.trans stays sound, owners⟩

namespace Differs

theorem stays (differs : Differs at_ d d') (sound' : d'.WellFormed)
    (paths : ∀ p here, d.place true p = .ok here → d.entryAt here ≠ none → d'.place true p = .ok here) :
    Stays d d' where
  sound := sound'
  paths := paths
  directories := by
    intro here m entry
    have other := differs.ne_of_isDirectoryAt (isDirectoryAt_of_entryAt entry)
    exact .inl ((differs.elsewhere here other).trans entry)
  files := by
    intro here e entry isFile
    by_cases same : here = at_
    · rw [same]
      exact differs.isFile
    · exact ⟨e, (differs.elsewhere here same).trans entry, isFile⟩
  links := by
    intro here t link
    by_cases same : here = at_
    · obtain ⟨e, entry, isFile⟩ := differs.isFile
      exact absurd (same ▸ link) (notLink_of_file entry isFile t)
    · rwa [differs.elsewhere here same] at link

theorem stays_of_vacant (differs : Differs at_ d d') (sound' : d'.WellFormed) (vacant : Vacant d at_) :
    Stays d d' :=
  differs.stays sound' fun _ _ led some => place_of_vacant vacant differs led fun _ => some

/-- A file that came where no link was leads no path astray. -/
theorem later (differs : Differs at_ d d') (sound' : d'.WellFormed)
    (notLink : ∀ t, d.entryAt at_ ≠ some (.link t)) : Later (· = at_) d d' where
  sound := sound'
  workingPlace := differs.workingPlace
  directories := fun _ isDir => differs.isDirectoryAt isDir
  links := by
    intro here t
    by_cases same : here = at_
    · obtain ⟨e, entry, isFile⟩ := differs.isFile
      rw [same]
      exact ⟨fun link => absurd link (notLink_of_file entry isFile t), fun link => absurd link (notLink t)⟩
    · rw [differs.elsewhere here same]
  files := fun here other e _ => by rw [differs.elsewhere here other]

end Differs

/-- What is written where a path leads is all that changes. -/
theorem differs_of_writeWholeWithMode {content : Content} (sound : d.WellFormed)
    (led : d.place false p = .ok at_) (done : outcome (writeWholeWithMode p content mode) d = (.ok (), d')) :
    d'.WellFormed ∧ Differs at_ d d' ∧ d'.place false p = .ok at_ := by
  have named := checkFileName_of_writeWholeWithMode sound done
  obtain ⟨e, failed, -⟩ | ⟨here, result, d₁, led', run, sound', differs, found⟩ :=
    writeWholeWithMode_ends sound (parent_isDirectory named led) content mode
  · rw [done] at failed
    cases failed
  · obtain rfl := Except.ok.inj (led.symm.trans led')
    rw [done] at run
    obtain ⟨rfl, rfl⟩ := Prod.mk.inj run
    exact ⟨sound', differs, (found rfl).1⟩

theorem differs_of_writeWhole {content : Content} (sound : d.WellFormed) (led : d.place false p = .ok at_)
    (named : checkFileName p = .ok ()) (done : outcome (writeWhole p content) d = (.ok (), d')) :
    d'.WellFormed ∧ Differs at_ d d' := by
  rw [outcome_writeWhole_of_parent (parent_isDirectory named led)] at done
  obtain ⟨d₁, run, replaces⟩ | ⟨e, failed, -⟩ := outcome_replaceFile p content d
  · rw [done] at run
    obtain rfl := (Prod.mk.inj run).2
    have sound' := replaces.sound sound
    obtain ⟨here, led', notDir, rfl⟩ := replaces.replaced
    obtain rfl := Except.ok.inj (led.symm.trans led')
    exact ⟨sound', .put (ne_nil_of_notDirectory notDir) notDir (isFile_newFile d content privateFileMode)⟩
  · rw [done] at failed
    cases failed

/-- A file is written to a path that came to nothing. If it comes where the path led before, or where no link
was, then all paths lead where they led; and all files but that one are as they were. -/
theorem stays_of_writeWholeWithMode {content : Content} (sound : d.WellFormed)
    (missing : d.find true p = .error .notFound)
    (done : outcome (writeWholeWithMode p content mode) d = (.ok (), d'))
    (direct : ∀ at_, d'.place false p = .ok at_ → d.place false p = .ok at_ ∨ ∀ t, d.entryAt at_ ≠ some (.link t)) :
    Stays d d' ∧ ∃ at_, d'.place false p = .ok at_ ∧
      (∀ here ≠ at_, ∀ e, e.isFile = true → (d'.entryAt here = some e ↔ d.entryAt here = some e)) ∧
      (d.place false p = .ok at_ → ∀ e, d.entryAt at_ = some e → e.isFile = false) := by
  obtain ⟨sound', at_, -, -, led, d₁, paves, differs⟩ := found_of_writeWholeWithMode sound done
  have noFile : d.place false p = .ok at_ → ∀ e, d.entryAt at_ = some e → e.isFile = false := by
    intro stops e entry
    rw [Bool.eq_false_iff]
    intro isFile
    rw [find_eq_ok_iff.mpr ⟨place_true_of_notLink stops (notLink_of_file entry isFile), entry⟩] at missing
    cases missing
  rcases direct at_ led with stops | notLink
  · obtain ⟨-, differs, -⟩ := differs_of_writeWholeWithMode sound stops done
    refine ⟨differs.stays_of_vacant sound' (vacant_of_missing sound stops missing nofun), at_, led, ?_, noFile⟩
    intro here other e _
    rw [differs.elsewhere here other]
  · have later := differs.later sound' fun t => mt (paves.grows.links at_ t).mp (notLink t)
    refine ⟨paves.stays.trans (differs.stays sound' fun _ _ led _ => later.place led) sound, at_, led, ?_, noFile⟩
    intro here other e isFile
    rw [differs.elsewhere here other]
    exact paves.grows.files here id e isFile

/-- The same entries, in whatever order they are listed. -/
structure SameEntries (d d' : Disk) : Prop where
  workingPlace : d'.workingPlace = d.workingPlace
  entry : ∀ at_, d'.entryAt at_ = d.entryAt at_

namespace SameEntries

theorem refl (d : Disk) : SameEntries d d := ⟨rfl, fun _ => rfl⟩

theorem symm (same : SameEntries d d') : SameEntries d' d :=
  ⟨same.workingPlace.symm, fun at_ => (same.entry at_).symm⟩

theorem trans (first : SameEntries d d') (second : SameEntries d' d'') : SameEntries d d'' :=
  ⟨second.workingPlace.trans first.workingPlace, fun at_ => (second.entry at_).trans (first.entry at_)⟩

theorem put (notRoot : at_ ≠ []) (entry : d.entryAt at_ = some e) : SameEntries d (d.put at_ e) where
  workingPlace := rfl
  entry := by
    intro here
    rw [entryAt_put notRoot]
    split
    · rename_i same
      rw [same, entry]
    · rfl

theorem isDirectoryAt (same : SameEntries d d') (at_ : Place) : d'.isDirectoryAt at_ = d.isDirectoryAt at_ := by
  rw [Disk.isDirectoryAt, Disk.isDirectoryAt, same.entry]

theorem wellFormed (same : SameEntries d d') (sound : d.WellFormed) : d'.WellFormed where
  fits := by
    intro at_ e entry notRoot
    rw [same.entry] at entry
    obtain ⟨parent, name, whole, isDir, isName⟩ := (sound.fits at_ e entry notRoot).named
    exact ⟨parent, name, whole, (same.isDirectoryAt parent).trans isDir, isName⟩
  targets := by
    intro at_ t entry
    rw [same.entry] at entry
    exact sound.targets at_ t entry

theorem grows (same : SameEntries d d') (sound : d.WellFormed) : Grows d d' where
  sound := same.wellFormed sound
  workingPlace := same.workingPlace
  directories := fun at_ isDir => (same.isDirectoryAt at_).trans isDir
  links := fun at_ t => by rw [same.entry]
  files := fun at_ _ e _ => by rw [same.entry]

theorem find (same : SameEntries d d') (sound : d.WellFormed) :
    d'.find through p = .ok (at_, e) ↔ d.find through p = .ok (at_, e) := by
  rw [find_eq_ok_iff, find_eq_ok_iff, same.entry]
  exact and_congr_left' ⟨(same.symm.grows (same.wellFormed sound)).place, (same.grows sound).place⟩

theorem exists_ (same : SameEntries d d') (sound : d.WellFormed) (p : Path) : d'.exists_ p = d.exists_ p := by
  rw [Bool.eq_iff_iff, exists_iff, exists_iff]
  simp only [← find_eq_ok_iff, same.find sound]

theorem readText {s : String} (same : SameEntries d d') (sound : d.WellFormed) (read : d.readText p = .ok s) :
    d'.readText p = .ok s := by
  obtain ⟨at_, m, modified, found⟩ := find_of_readText read
  exact readText_of_find ((same.find sound).mpr found)

theorem ownersOnly (same : SameEntries d d') (sound : d.WellFormed) (owners : OwnersOnly d p) : OwnersOnly d' p := by
  obtain ⟨at_, led, kept⟩ := owners
  refine ⟨at_, (same.grows sound).place led, ?_⟩
  rwa [same.entry]

end SameEntries

theorem outcome_keepDirectory_of_ownersOnly (sound : d.WellFormed) (owners : OwnersOnly d p) : ∃ d',
    outcome (keepDirectory p) d = (.ok (), d') ∧ SameEntries d d' := by
  have isDir := owners.isDirectory
  obtain ⟨at_, led, kept⟩ := owners
  obtain ⟨here, led', isDirAt⟩ := isDirectory_iff.mp isDir
  obtain rfl := Except.ok.inj (led.symm.trans led')
  obtain ⟨mode, entry⟩ := isDirectoryAt_iff.mp isDirAt
  rw [keepDirectory, outcome_bind, outcome_ensureDirectory_of_isDirectory isDir]
  dsimp only
  rw [outcome_setMode sound, find_eq_ok_iff.mpr ⟨led, entry⟩]
  dsimp only
  by_cases root : at_ = []
  · exact ⟨_, by rw [if_pos root], .refl _⟩
  · rw [if_neg root]
    exact ⟨_, rfl, .put root (kept.resolve_left root)⟩

end Keyring.Disk

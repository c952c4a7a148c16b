import Keyring.Disk.Write

/-!
# Entries of a disk

What is at a place after something has been put or erased, which disks are well
formed, and how a disk may change while files are written (`Later`).
-/

namespace Keyring

namespace Entry

def isDirectory : Entry → Bool
  | directory _ => true
  | _ => false

def isFile : Entry → Bool
  | file .. => true
  | _ => false

def target? : Entry → Option String
  | link target => some target
  | _ => none

end Entry

namespace Disk

variable {d : Disk} {at_ there : Place} {e : Entry}

theorem isDirectoryAt_iff : d.isDirectoryAt at_ = true ↔ ∃ mode, d.entryAt at_ = some (.directory mode) := by
  rw [isDirectoryAt]
  split
  · rename_i mode found
    simp [found]
  · rename_i other
    constructor
    · intro h
      cases h
    · rintro ⟨mode, found⟩
      exact absurd found (other mode)

theorem isDirectoryAt_root (d : Disk) : d.isDirectoryAt [] = true := rfl

theorem isDirectoryAt_of_entryAt {mode : Nat} (found : d.entryAt at_ = some (.directory mode)) :
    d.isDirectoryAt at_ = true := isDirectoryAt_iff.mpr ⟨mode, found⟩

theorem isDirectory_of_isDirectoryAt (isDir : d.isDirectoryAt at_ = true)
    (found : d.entryAt at_ = some e) : e.isDirectory = true := by
  obtain ⟨mode, found'⟩ := isDirectoryAt_iff.mp isDir
  rw [found] at found'
  cases found'
  rfl

theorem isDirectoryAt_of_file (found : d.entryAt at_ = some e) (isFile : e.isFile = true) :
    d.isDirectoryAt at_ = false := by
  rw [Bool.eq_false_iff]
  intro isDir
  obtain ⟨mode, found'⟩ := isDirectoryAt_iff.mp isDir
  rw [found] at found'
  cases found'
  cases isFile

theorem ne_nil_of_file (found : d.entryAt at_ = some e) (isFile : e.isFile = true) : at_ ≠ [] := by
  rintro rfl
  cases found
  cases isFile

theorem ne_nil_of_notDirectory (notDir : d.isDirectoryAt at_ = false) : at_ ≠ [] := by
  rintro rfl
  cases notDir

theorem notLink_of_file (found : d.entryAt at_ = some e) (isFile : e.isFile = true) (t : String) :
    d.entryAt at_ ≠ some (.link t) := by
  intro found'
  rw [found] at found'
  cases found'
  cases isFile

theorem lookup_filter_ne (entries : List (Place × Entry)) :
    (entries.filter (·.1 ≠ at_)).lookup there = if there = at_ then none else entries.lookup there := by
  induction entries with
  | nil => simp
  | cons head rest ih =>
    obtain ⟨here, e⟩ := head
    by_cases same : here = at_
    · subst same
      rw [List.filter_cons_of_neg (by simp), ih]
      split
      · rfl
      · rename_i other
        rw [List.lookup_cons, beq_eq_false_iff_ne.mpr other]
    · rw [List.filter_cons_of_pos (by simpa using same), List.lookup_cons, ih]
      split
      · rename_i found
        have equal : there = here := beq_iff_eq.mp found
        subst equal
        simp [same]
      · rename_i found
        rw [List.lookup_cons, found]

theorem mem_of_lookup {entries : List (Place × Entry)} (found : entries.lookup at_ = some e) :
    (at_, e) ∈ entries := by
  induction entries with
  | nil => cases found
  | cons head rest ih =>
    obtain ⟨here, e'⟩ := head
    rw [List.lookup_cons] at found
    split at found
    · rename_i same
      cases found
      rw [beq_iff_eq.mp same]
      exact List.mem_cons_self
    · exact List.mem_cons_of_mem _ (ih found)

theorem entryAt_put (notRoot : at_ ≠ []) :
    (d.put at_ e).entryAt there = if there = at_ then some e else d.entryAt there := by
  by_cases root : there = []
  · subst root
    rw [if_neg notRoot.symm]
    rfl
  · rw [entryAt, if_neg root, put, List.lookup_append, lookup_filter_ne, entryAt, if_neg root]
    by_cases same : there = at_
    · simp [same]
    · simp [same, List.lookup_cons, beq_eq_false_iff_ne.mpr same]

@[simp] theorem entryAt_put_self (notRoot : at_ ≠ []) : (d.put at_ e).entryAt at_ = some e := by
  rw [entryAt_put notRoot, if_pos rfl]

theorem entryAt_put_of_ne (notRoot : at_ ≠ []) (other : there ≠ at_) :
    (d.put at_ e).entryAt there = d.entryAt there := by
  rw [entryAt_put notRoot, if_neg other]

theorem entryAt_erase (notRoot : at_ ≠ []) :
    (d.erase at_).entryAt there = if there = at_ then none else d.entryAt there := by
  by_cases root : there = []
  · subst root
    rw [if_neg notRoot.symm]
    rfl
  · rw [entryAt, if_neg root, erase, lookup_filter_ne, entryAt, if_neg root]

/-- A name that an entry can have in its directory. -/
structure IsName (name : String) : Prop where
  some : name ≠ ""
  notHere : name ≠ "."
  notUp : name ≠ ".."
  short : Text.utf8Length name ≤ longestName
  plain : '/' ∉ name.toList
  noNul : '\x00' ∉ name.toList

/-- A place that can hold an entry: it is named, in a directory. -/
structure Fits (d : Disk) (at_ : Place) : Prop where
  named : ∃ parent name, at_ = parent ++ [name] ∧ d.isDirectoryAt parent = true ∧ IsName name

/-- Every entry has a name and stands in a directory. -/
structure WellFormed (d : Disk) : Prop where
  fits : ∀ at_ e, d.entryAt at_ = some e → at_ ≠ [] → d.Fits at_
  targets : ∀ at_ target, d.entryAt at_ = some (.link target) → '\x00' ∉ target.toList

instance (name : String) : Decidable (IsName name) :=
  decidable_of_iff (name ≠ "" ∧ name ≠ "." ∧ name ≠ ".." ∧ Text.utf8Length name ≤ longestName ∧
      '/' ∉ name.toList ∧ '\x00' ∉ name.toList)
    ⟨fun h => ⟨h.1, h.2.1, h.2.2.1, h.2.2.2.1, h.2.2.2.2.1, h.2.2.2.2.2⟩,
      fun named => ⟨named.some, named.notHere, named.notUp, named.short, named.plain, named.noNul⟩⟩

/-- A disk whose entries are listed is well formed if each of them is where it can be. -/
theorem wellFormed_of_entries (each : ∀ x ∈ d.entries, x.1 ≠ [] ∧ d.isDirectoryAt x.1.dropLast = true ∧
    IsName (x.1.getLastD "") ∧ ∀ t ∈ x.2.target?, '\x00' ∉ t.toList) : d.WellFormed := by
  have listed : ∀ at_ e, d.entryAt at_ = some e → at_ ≠ [] → (at_, e) ∈ d.entries := by
    intro at_ e found notRoot
    rw [entryAt, if_neg notRoot] at found
    exact mem_of_lookup found
  constructor
  · intro at_ e found notRoot
    obtain ⟨-, isDir, named, -⟩ := each _ (listed at_ e found notRoot)
    refine ⟨at_.dropLast, at_.getLastD "", ?_, isDir, named⟩
    rw [List.getLastD_eq_getLast?, List.getLast?_eq_some_getLast notRoot, Option.getD_some,
      List.dropLast_concat_getLast notRoot]
  · intro at_ target found
    have notRoot : at_ ≠ [] := by
      rintro rfl
      cases found
    obtain ⟨-, -, -, clean⟩ := each _ (listed at_ _ found notRoot)
    exact clean target rfl

def emptyDisk : Disk := ⟨[], [], ⟨0, 0⟩⟩

theorem wellFormed_emptyDisk : emptyDisk.WellFormed := wellFormed_of_entries nofun

theorem Fits.ne_nil (fits : d.Fits at_) : at_ ≠ [] := by
  obtain ⟨parent, name, rfl, _⟩ := fits.named
  simp

theorem fits_append_iff {parent : Place} {name : String} :
    d.Fits (parent ++ [name]) ↔ d.isDirectoryAt parent = true ∧ IsName name := by
  constructor
  · intro fits
    obtain ⟨parent', name', whole, isDir, named⟩ := fits.named
    obtain ⟨rfl, last⟩ := List.append_inj' whole rfl
    obtain rfl := (List.cons_eq_cons.mp last).1
    exact ⟨isDir, named⟩
  · rintro ⟨isDir, named⟩
    exact ⟨parent, name, rfl, isDir, named⟩

theorem WellFormed.isDirectoryAt_dropLast (sound : d.WellFormed) (isDir : d.isDirectoryAt at_ = true) :
    d.isDirectoryAt at_.dropLast = true := by
  by_cases root : at_ = []
  · subst root
    exact isDir
  · obtain ⟨mode, found⟩ := isDirectoryAt_iff.mp isDir
    obtain ⟨parent, name, rfl, isParent, _⟩ := (sound.fits _ _ found root).named
    rwa [List.dropLast_concat]

theorem WellFormed.isDirectoryAt_of_child {parent : Place} {name : String} (sound : d.WellFormed)
    (found : d.entryAt (parent ++ [name]) = some e) : d.isDirectoryAt parent = true :=
  (fits_append_iff.mp (sound.fits _ _ found (by simp))).1

/-- A later state of a disk: no directory has gone, and no link has come or gone; a file has come,
changed or gone only at a place that was touched. -/
structure Later (touched : Place → Prop) (d d' : Disk) : Prop where
  sound : d'.WellFormed
  workingPlace : d'.workingPlace = d.workingPlace
  directories : ∀ at_, d.isDirectoryAt at_ = true → d'.isDirectoryAt at_ = true
  links : ∀ at_ target, d'.entryAt at_ = some (.link target) ↔ d.entryAt at_ = some (.link target)
  files : ∀ at_, ¬touched at_ → ∀ e, e.isFile = true → (d'.entryAt at_ = some e ↔ d.entryAt at_ = some e)

/-- A later state of a disk, whatever became of its files. -/
def Evolves : Disk → Disk → Prop := Later fun _ => True

/-- A later state of a disk with the same files. -/
def Grows : Disk → Disk → Prop := Later fun _ => False

namespace Later

variable {touched touched' : Place → Prop} {d' d'' : Disk}

theorem refl (sound : d.WellFormed) : Later touched d d :=
  ⟨sound, rfl, fun _ h => h, fun _ _ => Iff.rfl, fun _ _ _ _ => Iff.rfl⟩

theorem trans (first : Later touched d d') (second : Later touched d' d'') : Later touched d d'' where
  sound := second.sound
  workingPlace := second.workingPlace.trans first.workingPlace
  directories := fun at_ h => second.directories at_ (first.directories at_ h)
  links := fun at_ target => (second.links at_ target).trans (first.links at_ target)
  files := fun at_ free e isFile => (second.files at_ free e isFile).trans (first.files at_ free e isFile)

theorem mono (later : Later touched d d') (more : ∀ at_, touched at_ → touched' at_) :
    Later touched' d d' :=
  { later with files := fun at_ free => later.files at_ (mt (more at_) free) }

theorem evolves (later : Later touched d d') : Evolves d d' := later.mono fun _ _ => trivial

theorem fits (later : Later touched d d') (fits : d.Fits at_) : d'.Fits at_ := by
  obtain ⟨parent, name, rfl, isDir, named⟩ := fits.named
  exact ⟨parent, name, rfl, later.directories parent isDir, named⟩

end Later

theorem Grows.later {touched : Place → Prop} {d' : Disk} (grows : Grows d d') : Later touched d d' :=
  grows.mono fun _ => False.elim

/-! ## Single changes -/

/-- An entry that is no directory can be put where none is. -/
theorem WellFormed.put (sound : d.WellFormed) (fits : d.Fits at_)
    (free : d.isDirectoryAt at_ = true → e.isDirectory = true)
    (target : ∀ t, e = .link t → '\x00' ∉ t.toList) : (d.put at_ e).WellFormed := by
  have keeps : ∀ there, d.isDirectoryAt there = true → (d.put at_ e).isDirectoryAt there = true := by
    intro there isDir
    by_cases same : there = at_
    · subst same
      cases e with
      | directory mode => exact isDirectoryAt_of_entryAt (entryAt_put_self fits.ne_nil)
      | file => cases free isDir
      | link => cases free isDir
    · obtain ⟨mode, found⟩ := isDirectoryAt_iff.mp isDir
      exact isDirectoryAt_of_entryAt ((entryAt_put_of_ne fits.ne_nil same).trans found)
  have carried : ∀ there, d.Fits there → (d.put at_ e).Fits there := by
    intro there fits
    obtain ⟨parent, name, rfl, isDir, named⟩ := fits.named
    exact ⟨parent, name, rfl, keeps parent isDir, named⟩
  constructor
  · intro there e' found notRoot
    by_cases same : there = at_
    · subst same
      exact carried there fits
    · rw [entryAt_put_of_ne fits.ne_nil same] at found
      exact carried there (sound.fits there e' found notRoot)
  · intro there t found
    by_cases same : there = at_
    · subst same
      rw [entryAt_put_self fits.ne_nil] at found
      exact target t (Option.some.inj found)
    · rw [entryAt_put_of_ne fits.ne_nil same] at found
      exact sound.targets there t found

theorem wellFormed_loneFile {name : String} (isName : IsName name) (isFile : e.isFile = true) :
    (emptyDisk.put [name] e).WellFormed := by
  refine wellFormed_emptyDisk.put ⟨[], name, rfl, rfl, isName⟩ (fun isDir => ?_) fun t same => ?_
  · cases isDir
  · rw [same] at isFile
    cases isFile

/-- A file put where there is none, or in the place of another. -/
theorem Later.putFile (sound : d.WellFormed) (fits : d.Fits at_) (isFile : e.isFile = true)
    (free : ∀ e', d.entryAt at_ = some e' → e'.isFile = true) : Later (· = at_) d (d.put at_ e) := by
  have notDir : d.isDirectoryAt at_ = false := by
    rw [Bool.eq_false_iff]
    intro isDir
    obtain ⟨mode, found⟩ := isDirectoryAt_iff.mp isDir
    cases free _ found
  have notLink : ∀ t, e ≠ .link t := by
    rintro t rfl
    cases isFile
  refine ⟨sound.put fits (fun isDir => by rw [notDir] at isDir; cases isDir)
    (fun t same => absurd same (notLink t)), rfl, ?_, ?_, ?_⟩
  · intro there isDir
    have other : there ≠ at_ := by
      rintro rfl
      rw [notDir] at isDir
      cases isDir
    obtain ⟨mode, found⟩ := isDirectoryAt_iff.mp isDir
    exact isDirectoryAt_of_entryAt ((entryAt_put_of_ne fits.ne_nil other).trans found)
  · intro there t
    by_cases same : there = at_
    · subst same
      rw [entryAt_put_self fits.ne_nil]
      constructor
      · intro found
        exact absurd (Option.some.inj found) (notLink t)
      · intro found
        cases free _ found
    · rw [entryAt_put_of_ne fits.ne_nil same]
  · intro there other e' _
    rw [entryAt_put_of_ne fits.ne_nil other]

/-- A directory put where there is nothing, or in the place of another. -/
theorem Grows.putDirectory {mode : Nat} (sound : d.WellFormed) (fits : d.Fits at_)
    (free : ∀ e', d.entryAt at_ = some e' → e'.isDirectory = true) :
    Grows d (d.put at_ (.directory mode)) := by
  have other : ∀ {e there}, e.isDirectory = false → (d.put at_ (.directory mode)).entryAt there = some e ∨
      d.entryAt there = some e → there ≠ at_ := by
    rintro e there notDir found rfl
    rw [entryAt_put_self fits.ne_nil] at found
    rcases found with found | found
    · cases found
      cases notDir
    · rw [free e found] at notDir
      cases notDir
  have same : ∀ {e there}, e.isDirectory = false →
      ((d.put at_ (.directory mode)).entryAt there = some e ↔ d.entryAt there = some e) := by
    intro e there notDir
    constructor
    · intro found
      rwa [entryAt_put_of_ne fits.ne_nil (other notDir (.inl found))] at found
    · intro found
      rwa [entryAt_put_of_ne fits.ne_nil (other notDir (.inr found))]
  refine ⟨sound.put fits (fun _ => rfl) (fun t h => by cases h), rfl, ?_, fun _ _ => same rfl, ?_⟩
  · intro there isDir
    by_cases here : there = at_
    · subst here
      exact isDirectoryAt_of_entryAt (entryAt_put_self fits.ne_nil)
    · obtain ⟨m, found⟩ := isDirectoryAt_iff.mp isDir
      exact isDirectoryAt_of_entryAt ((entryAt_put_of_ne fits.ne_nil here).trans found)
  · intro there _ e isFile
    refine same ?_
    cases e <;> first | rfl | cases isFile

theorem WellFormed.erase (sound : d.WellFormed) (notDir : d.isDirectoryAt at_ = false) :
    (d.erase at_).WellFormed ∧
      ∀ there, d.isDirectoryAt there = true → (d.erase at_).isDirectoryAt there = true := by
  have notRoot := ne_nil_of_notDirectory notDir
  have left : ∀ {there e}, (d.erase at_).entryAt there = some e → d.entryAt there = some e := by
    intro there e found
    rw [entryAt_erase notRoot] at found
    split at found
    · cases found
    · exact found
  have directories : ∀ there, d.isDirectoryAt there = true → (d.erase at_).isDirectoryAt there = true := by
    intro there isDir
    have other : there ≠ at_ := by
      rintro rfl
      rw [notDir] at isDir
      cases isDir
    obtain ⟨mode, found⟩ := isDirectoryAt_iff.mp isDir
    refine isDirectoryAt_iff.mpr ⟨mode, ?_⟩
    rw [entryAt_erase notRoot, if_neg other, found]
  refine ⟨⟨fun there e found notRoot' => ?_, fun there t found => sound.targets there t (left found)⟩, directories⟩
  obtain ⟨parent, name, rfl, isDir, named⟩ := (sound.fits there e (left found) notRoot').named
  exact ⟨parent, name, rfl, directories parent isDir, named⟩

theorem Later.erase (sound : d.WellFormed) (found : d.entryAt at_ = some e) (isFile : e.isFile = true) :
    Later (· = at_) d (d.erase at_) := by
  have notRoot := ne_nil_of_file found isFile
  have kept : ∀ {there}, there ≠ at_ → (d.erase at_).entryAt there = d.entryAt there := by
    intro there other
    rw [entryAt_erase notRoot, if_neg other]
  have gone : (d.erase at_).entryAt at_ = none := by rw [entryAt_erase notRoot, if_pos rfl]
  obtain ⟨sound', directories⟩ := sound.erase (isDirectoryAt_of_file found isFile)
  refine ⟨sound', rfl, directories, ?_, fun there other _ _ => by rw [kept other]⟩
  intro there t
  by_cases same : there = at_
  · subst same
    rw [gone, found]
    constructor
    · intro h
      cases h
    · rintro ⟨⟩
      cases isFile
  · rw [kept same]

end Disk

end Keyring

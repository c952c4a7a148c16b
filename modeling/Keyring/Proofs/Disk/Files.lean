import Keyring.Proofs.Disk.Directories

/-!
# Writing files

What each way of writing a file leaves on a disk: the file at the place that the
path leads to, and everything else as it was.
-/

namespace Keyring.Disk

variable {d d' : Disk} {p : Path} {at_ : Place} {content : Content} {mode : Nat} {e : Entry}

theorem isFile_newFile (d : Disk) (content : Content) (mode : Nat) :
    (d.newFile content mode).isFile = true := rfl

/-- An entry with other permissions. -/
def withMode (mode : Nat) : Entry → Entry
  | .file content _ modified => .file content (mode % 0o10000) modified
  | .directory _ => .directory (mode % 0o10000)
  | .link target => .link target

/-- Permissions are set on what a path leads to; those of the root stay. -/
theorem outcome_setMode (sound : d.WellFormed) (p : Path) (mode : Nat) :
    outcome (setMode p mode) d = match d.find true p with
      | .error e => (.error e, d)
      | .ok (at_, e) => (.ok (), if at_ = [] then d else d.put at_ (withMode mode e)) := by
  rw [setMode, outcome_bind, outcome_ask]
  rcases found : d.find true p with e | ⟨at_, e⟩
  · rfl
  · dsimp only
    obtain ⟨led, entry⟩ := find_eq_ok_iff.mp found
    cases e with
    | file content m modified =>
      have notRoot : at_ ≠ [] := by
        rintro rfl
        cases entry
      rw [if_neg notRoot]
      rfl
    | directory m =>
      dsimp only
      split <;> rfl
    | link target => exact absurd entry (sound.notLink_of_place led target)

/-- Permissions are no matter of paths; of files they change the one that is meant. -/
theorem keeps_setMode (sound : d.WellFormed) :
    Later (fun at_ => ∃ e, d.find true p = .ok (at_, e) ∧ e.isFile = true) d
      (outcome (setMode p mode) d).2 := by
  rw [outcome_setMode sound]
  split
  · exact .refl sound
  · rename_i at_ e found
    obtain ⟨led, entry⟩ := find_eq_ok_iff.mp found
    dsimp only
    split
    · exact .refl sound
    · rename_i notRoot
      have fits := sound.fits at_ e entry notRoot
      cases e with
      | file content m modified =>
        refine (Later.putFile sound fits rfl ?_).mono fun here same => ⟨_, same ▸ found, rfl⟩
        intro e' entry'
        rw [entry] at entry'
        cases entry'
        rfl
      | directory m =>
        refine (Grows.putDirectory sound fits ?_).later
        intro e' entry'
        rw [entry] at entry'
        cases entry'
        rfl
      | link target => exact absurd entry (sound.notLink_of_place led target)

/-- The file that a path leads to, or a new one there, is written. -/
theorem keeps_writeThrough (sound : d.WellFormed) :
    Later (fun at_ => d.place true p = .ok at_) d (outcome (writeThrough p content) d).2 := by
  rw [writeThrough, outcome_bind, outcome_ask]
  rcases led : d.place true p with e | at_
  · exact .refl sound
  · dsimp only
    rw [outcome_bind, outcome_get]
    dsimp only
    have written : ∀ m, (∀ e, d.entryAt at_ = some e → e.isFile = true) →
        Later (· = at_) d (d.put at_ (d.newFile content m)) := by
      intro m free
      rcases sound.fits_of_place led with rfl | fits
      · cases free _ rfl
      · exact Later.putFile sound fits rfl free
    have there : ∀ here, here = at_ → (Except.ok at_ : Except FileError Place) = .ok here :=
      fun here same => by rw [same]
    split
    · rename_i content' m modified entry
      refine (written m ?_).mono there
      intro e entry'
      rw [entry] at entry'
      cases entry'
      rfl
    · exact .refl sound
    · rename_i free
      split
      · exact .refl sound
      · refine (written fileMode ?_).mono there
        intro e entry'
        rw [free] at entry'
        cases entry'

/-! ## Putting a file in place of another -/

/-- What is put in place: a file, over a file, a link or nothing. -/
structure Replaces (p : Path) (content : Content) (d d' : Disk) : Prop where
  named : checkFileName p = .ok ()
  replaced : ∃ at_, d.place false p = .ok at_ ∧ d.isDirectoryAt at_ = false ∧
    d' = d.put at_ (d.newFile content privateFileMode)

theorem outcome_replaceFile (p : Path) (content : Content) (d : Disk) :
    (∃ d', outcome (replaceFile p content) d = (.ok (), d') ∧ Replaces p content d d') ∨
      ∃ e, outcome (replaceFile p content) d = (.error e, d) ∧ ∀ d', ¬Replaces p content d d' := by
  rw [replaceFile, outcome_bind, outcome_ofExcept]
  rcases named : checkFileName p with e | u
  · refine .inr ⟨e, rfl, fun d' replaces => ?_⟩
    have ok := replaces.named
    rw [named] at ok
    cases ok
  · dsimp only
    rw [outcome_bind, outcome_ask]
    rcases led : d.place false p with e | at_
    · refine .inr ⟨e, rfl, fun d' replaces => ?_⟩
      obtain ⟨at_, led', _⟩ := replaces.replaced
      rw [led] at led'
      cases led'
    · dsimp only
      rw [outcome_bind, outcome_get]
      dsimp only
      by_cases isDir : d.isDirectoryAt at_ = true
      · refine .inr ⟨.isDirectory, ?_, fun d' replaces => ?_⟩
        · rw [if_pos isDir]
          rfl
        · obtain ⟨here, led', notDir, _⟩ := replaces.replaced
          rw [led] at led'
          cases led'
          rw [isDir] at notDir
          cases notDir
      · refine .inl ⟨d.put at_ (d.newFile content privateFileMode), ?_, named, at_, led, by simpa using isDir, rfl⟩
        rw [if_neg isDir]
        rfl

/-- The directory that a path stands in, as its writer sees it. -/
def parentOf (p : Path) : Path := (Path.parent? p).getD ""

/-- The directories of a file, made where they are missing. -/
def paveParent (p : Path) : DiskM Unit := do
  let parent := (Path.parent? p).getD ""
  if !parent.isEmpty then
    ensureDirectory parent
    if !(← get).isDirectory parent then throw .notDirectory

theorem writeWhole_eq (p : Path) (content : Content) :
    writeWhole p content = paveParent p >>= fun _ => replaceFile p content := by
  unfold writeWhole paveParent
  dsimp only
  split
  · rw [bind_assoc]
    refine bind_congr fun _ => ?_
    rw [bind_assoc]
    refine bind_congr fun d => ?_
    split
    · rfl
    · rw [pure_bind]
  · rw [pure_bind]

theorem paving_paveParent (p : Path) : Paving (parentOf p) (paveParent p) := by
  unfold paveParent
  dsimp only
  split
  · refine Paving.bind (paving_ensureDirectory _) fun _ d sound => ?_
    rw [outcome_bind, outcome_get]
    dsimp only
    split <;> exact .refl sound
  · exact Paving.pure _

theorem outcome_writeWhole (sound : d.WellFormed) (p : Path) (content : Content) : ∃ d₁,
    Paves (parentOf p) d d₁ ∧ ((∃ d', outcome (writeWhole p content) d = (.ok (), d') ∧ Replaces p content d₁ d') ∨
      ∃ e, outcome (writeWhole p content) d = (.error e, d₁)) := by
  have paves := paving_paveParent p d sound
  rw [writeWhole_eq, outcome_bind]
  rcases run : outcome (paveParent p) d with ⟨e | u, d₁⟩ <;> rw [run] at paves
  · exact ⟨d₁, paves, .inr ⟨e, rfl⟩⟩
  · refine ⟨d₁, paves, ?_⟩
    exact (outcome_replaceFile p content d₁).imp_right fun ⟨e, failed, _⟩ => ⟨e, failed⟩

/-- Where its directory is there, a file is just put in place. -/
theorem outcome_writeWhole_of_parent (there : parentOf p = "" ∨ d.isDirectory (parentOf p) = true) :
    outcome (writeWhole p content) d = outcome (replaceFile p content) d := by
  rw [parentOf] at there
  rw [writeWhole]
  dsimp only
  split
  · rename_i some
    have isDir := there.resolve_left (by simpa using some)
    rw [outcome_bind, outcome_ensureDirectory_of_isDirectory isDir]
    dsimp only
    rw [outcome_bind, outcome_get]
    dsimp only
    rw [if_neg (by simp [isDir])]
  · rfl

/-! ## With permissions -/

theorem Replaces.sound {d₁ : Disk} (sound : d₁.WellFormed) (replaces : Replaces p content d₁ d') :
    d'.WellFormed := by
  obtain ⟨at_, led, notDir, rfl⟩ := replaces.replaced
  rcases sound.fits_of_place led with rfl | fits
  · cases notDir
  · refine sound.put fits (fun isDir => ?_) (fun t same => by cases same)
    rw [isDir] at notDir
    cases notDir

/-- A disk that differs from another in one place, where a file has come in the place of a file, of
a link or of nothing. -/
structure Differs (at_ : Place) (d d' : Disk) : Prop where
  free : d.isDirectoryAt at_ = false
  workingPlace : d'.workingPlace = d.workingPlace
  elsewhere : ∀ here, here ≠ at_ → d'.entryAt here = d.entryAt here
  isFile : ∃ e, d'.entryAt at_ = some e ∧ e.isFile = true

theorem Differs.put (notRoot : at_ ≠ []) (free : d.isDirectoryAt at_ = false) (isFile : e.isFile = true) :
    Differs at_ d (d.put at_ e) where
  free := free
  workingPlace := rfl
  elsewhere := fun _ other => entryAt_put_of_ne notRoot other
  isFile := ⟨e, entryAt_put_self notRoot, isFile⟩

theorem Differs.again (differs : Differs at_ d d') (notRoot : at_ ≠ []) (isFile : e.isFile = true) :
    Differs at_ d (d'.put at_ e) where
  free := differs.free
  workingPlace := differs.workingPlace
  elsewhere := fun here other =>
    (entryAt_put_of_ne notRoot other).trans (differs.elsewhere here other)
  isFile := ⟨e, entryAt_put_self notRoot, isFile⟩

theorem Differs.ne_of_isDirectoryAt (differs : Differs at_ d d') {here : Place}
    (isDir : d.isDirectoryAt here = true) : here ≠ at_ := by
  rintro rfl
  rw [differs.free] at isDir
  cases isDir

theorem Differs.isDirectoryAt (differs : Differs at_ d d') {here : Place} (isDir : d.isDirectoryAt here = true) :
    d'.isDirectoryAt here = true := by
  obtain ⟨m, entry⟩ := isDirectoryAt_iff.mp isDir
  exact isDirectoryAt_of_entryAt ((differs.elsewhere here (differs.ne_of_isDirectoryAt isDir)).trans entry)

/-- A file that is put in place is found there, if anything is. -/
theorem Replaces.find {d₁ : Disk} {goal : Place} (replaces : Replaces p content d₁ d')
    (found : d'.find true p = .ok (goal, e)) :
    e = d₁.newFile content privateFileMode ∧ goal ≠ [] ∧ d'.place false p = .ok goal ∧
      Differs goal d₁ d' := by
  obtain ⟨at_, led, notDir, rfl⟩ := replaces.replaced
  have notRoot := ne_nil_of_notDirectory notDir
  obtain ⟨again, entry⟩ := find_eq_ok_iff.mp found
  obtain ⟨rfl, stopped⟩ :=
    place_put_file (isFile_newFile d₁ content privateFileMode) notRoot led again
  rw [entryAt_put_self notRoot] at entry
  exact ⟨(Option.some.inj entry).symm, notRoot, stopped, .put notRoot notDir (isFile_newFile d₁ _ _)⟩

/-- When a file has been put in place its permissions are set, or the path has come to lead nowhere. -/
theorem setMode_of_replaces {d₁ : Disk} (sound : d₁.WellFormed) (replaces : Replaces p content d₁ d)
    (mode : Nat) : ∃ at_ result d', d₁.place false p = .ok at_ ∧ outcome (setMode p mode) d = (result, d') ∧
      d'.WellFormed ∧ Differs at_ d₁ d' ∧ (result = .ok () → d'.place false p = .ok at_ ∧
        ∃ modified, d'.find true p = .ok (at_, .file content (mode % 0o10000) modified)) := by
  have sound' := replaces.sound sound
  obtain ⟨at_, led, notDir, put⟩ := replaces.replaced
  have notRoot := ne_nil_of_notDirectory notDir
  rw [outcome_setMode sound']
  cases found : d.find true p with
  | error e =>
    have differs : Differs at_ d₁ d := put ▸ .put notRoot notDir (isFile_newFile d₁ _ _)
    exact ⟨at_, _, d, led, rfl, sound', differs, nofun⟩
  | ok there =>
    obtain ⟨goal, e⟩ := there
    obtain ⟨rfl, goalNotRoot, stopped, differs⟩ := replaces.find found
    obtain ⟨ledThrough, entry⟩ := find_eq_ok_iff.mp found
    obtain rfl : goal = at_ := by
      subst put
      exact (place_put_file (isFile_newFile d₁ _ _) notRoot led ledThrough).1
    have later : Later (· = goal) d (d.put goal (withMode mode (d₁.newFile content privateFileMode))) := by
      refine Later.putFile sound' (sound'.fits goal _ entry notRoot) rfl ?_
      intro e' entry'
      rw [entry] at entry'
      cases entry'
      rfl
    refine ⟨goal, _, _, led, rfl, ?_⟩
    rw [if_neg notRoot]
    exact ⟨later.sound, differs.again notRoot rfl, fun _ => ⟨later.place stopped, d₁.clock,
      find_eq_ok_iff.mpr ⟨later.place ledThrough, entryAt_put_self notRoot⟩⟩⟩

/-- A file that was written is what the path leads to. Besides, directories have been made. -/
theorem found_of_writeWholeWithMode (sound : d.WellFormed)
    (done : outcome (writeWholeWithMode p content mode) d = (.ok (), d')) : d'.WellFormed ∧
      ∃ at_ modified, d'.find true p = .ok (at_, .file content (mode % 0o10000) modified) ∧
        d'.place false p = .ok at_ ∧ ∃ d₁, Paves (parentOf p) d d₁ ∧ Differs at_ d₁ d' := by
  obtain ⟨_, d₂, written, changed⟩ := of_outcome_bind_ok done
  obtain ⟨d₁, paves, ⟨d₂', run, replaces⟩ | ⟨e, failed⟩⟩ := outcome_writeWhole sound p content
  · obtain rfl : d₂' = d₂ := by
      rw [run] at written
      exact (Prod.mk.inj written).2
    obtain ⟨at_, result, _, -, set, sound', differs, found⟩ := setMode_of_replaces paves.grows.sound replaces mode
    rw [changed] at set
    obtain ⟨rfl, rfl⟩ := Prod.mk.inj set
    obtain ⟨stopped, modified, found⟩ := found rfl
    exact ⟨sound', at_, modified, found, stopped, d₁, paves, differs⟩
  · rw [failed] at written
    cases written

theorem checkFileName_of_writeWholeWithMode (sound : d.WellFormed)
    (done : outcome (writeWholeWithMode p content mode) d = (.ok (), d')) : checkFileName p = .ok () := by
  obtain ⟨_, d₂, written, -⟩ := of_outcome_bind_ok done
  obtain ⟨d₁, -, ⟨d₂', -, replaces⟩ | ⟨e, failed⟩⟩ := outcome_writeWhole sound p content
  · exact replaces.named
  · rw [failed] at written
    cases written

/-- Where its directory is there, a file is refused, or it comes to the place of its path and nothing else
changes; its permissions may still be refused then. -/
theorem writeWholeWithMode_ends (sound : d.WellFormed)
    (there : parentOf p = "" ∨ d.isDirectory (parentOf p) = true) (content : Content) (mode : Nat) :
    (∃ e, outcome (writeWholeWithMode p content mode) d = (.error e, d) ∧ ∀ d', ¬Replaces p content d d') ∨
    ∃ at_ result d', d.place false p = .ok at_ ∧
      outcome (writeWholeWithMode p content mode) d = (result, d') ∧ d'.WellFormed ∧ Differs at_ d d' ∧
      (result = .ok () → d'.place false p = .ok at_ ∧
        ∃ modified, d'.find true p = .ok (at_, .file content (mode % 0o10000) modified)) := by
  rw [writeWholeWithMode, outcome_bind, outcome_writeWhole_of_parent there]
  obtain ⟨d₁, run, replaces⟩ | ⟨e, failed, refused⟩ := outcome_replaceFile p content d
  · rw [run]
    exact .inr (setMode_of_replaces sound replaces mode)
  · rw [failed]
    exact .inl ⟨e, rfl, refused⟩

/-- A file put in place of no link changes nothing else. -/
theorem Replaces.later {d₁ : Disk} (sound : d₁.WellFormed) (replaces : Replaces p content d₁ d')
    (led : d₁.place false p = .ok at_) (notLink : ∀ t, d₁.entryAt at_ ≠ some (.link t)) :
    Later (· = at_) d₁ d' := by
  obtain ⟨here, led', notDir, rfl⟩ := replaces.replaced
  rw [led] at led'
  cases led'
  rcases sound.fits_of_place led with rfl | fits
  · cases notDir
  · refine Later.putFile sound fits rfl ?_
    intro e entry
    cases e with
    | file => rfl
    | directory m =>
      rw [isDirectoryAt_of_entryAt entry] at notDir
      cases notDir
    | link t => exact absurd entry (notLink t)

/-- Its path leads to a file that was put in place, or else nowhere, and then the file is where there was
a link. -/
theorem Replaces.find_or_severed {d₁ : Disk} (sound : d₁.WellFormed) (replaces : Replaces p content d₁ d') :
    (∃ at_, d'.find true p = .ok (at_, d₁.newFile content privateFileMode)) ∨
      ∃ e at_ target, d'.find true p = .error e ∧ d₁.entryAt at_ = some (.link target) ∧
        d'.entryAt at_ = some (d₁.newFile content privateFileMode) := by
  cases found : d'.find true p with
  | ok there =>
    obtain ⟨goal, e⟩ := there
    obtain ⟨rfl, -⟩ := replaces.find found
    exact .inl ⟨goal, rfl⟩
  | error e =>
    obtain ⟨at_, led, notDir, put⟩ := replaces.replaced
    have entry : d'.entryAt at_ = some (d₁.newFile content privateFileMode) := by
      rw [put, entryAt_put_self (ne_nil_of_notDirectory notDir)]
    by_cases link : ∃ target, d₁.entryAt at_ = some (.link target)
    · obtain ⟨target, link⟩ := link
      exact .inr ⟨e, at_, target, rfl, link, entry⟩
    · have later := replaces.later sound led (not_exists.mp link)
      have ledThrough := later.place (place_true_of_notLink led (not_exists.mp link))
      rw [find_eq_ok_iff.mpr ⟨ledThrough, entry⟩] at found
      cases found

theorem keeps_writeWhole (sound : d.WellFormed) (led : d.place false p = .ok at_)
    (notLink : ∀ t, d.entryAt at_ ≠ some (.link t)) :
    Later (· = at_) d (outcome (writeWhole p content) d).2 := by
  obtain ⟨d₁, ⟨grows, _⟩, ⟨d', run, replaces⟩ | ⟨e, failed⟩⟩ := outcome_writeWhole sound p content
  · rw [run]
    exact grows.later.trans (replaces.later grows.sound (grows.place led)
      fun t => mt (grows.links at_ t).mp (notLink t))
  · rw [failed]
    exact grows.later

theorem keeps_writeWholeWithMode (sound : d.WellFormed) (led : d.place false p = .ok at_)
    (notLink : ∀ t, d.entryAt at_ ≠ some (.link t)) :
    Later (· = at_) d (outcome (writeWholeWithMode p content mode) d).2 := by
  have written : Later (· = at_) d (outcome (writeWhole p content) d).2 :=
    keeps_writeWhole sound led notLink
  rw [writeWholeWithMode, outcome_bind]
  rcases run : outcome (writeWhole p content) d with ⟨e | u, d'⟩
  · rw [run] at written
    exact written
  · rw [run] at written
    refine written.trans ((keeps_setMode written.sound).mono ?_)
    rintro here ⟨e, found, _⟩
    have led' := place_true_of_notLink (written.place led) fun t => mt (written.links at_ t).mp (notLink t)
    rw [(find_eq_ok_iff.mp found).1] at led'
    exact Except.ok.inj led'

/-- A file can be written where its directory is there, if its path stops at it when it has come. -/
theorem writeWholeWithMode_of_stops (sound : d.WellFormed)
    (there : parentOf p = "" ∨ d.isDirectory (parentOf p) = true) (named : checkFileName p = .ok ())
    (led : d.place false p = .ok at_) (notDir : d.isDirectoryAt at_ = false)
    (stops : (d.put at_ (d.newFile content privateFileMode)).place false p = .ok at_) :
    ∃ d', outcome (writeWholeWithMode p content mode) d = (.ok (), d') := by
  have notRoot := ne_nil_of_notDirectory notDir
  have entry : (d.put at_ (d.newFile content privateFileMode)).entryAt at_ = _ := entryAt_put_self notRoot
  have found := find_eq_ok_iff.mpr
    ⟨place_true_of_notLink stops (notLink_of_file entry (isFile_newFile d content privateFileMode)), entry⟩
  obtain ⟨d', run, replaces⟩ | ⟨e, _, refused⟩ := outcome_replaceFile p content d
  · have sound' := replaces.sound sound
    obtain ⟨here, led', _, rfl⟩ := replaces.replaced
    obtain rfl := Except.ok.inj (led.symm.trans led')
    rw [writeWholeWithMode, outcome_bind, outcome_writeWhole_of_parent there, run]
    dsimp only
    rw [outcome_setMode sound', found]
    exact ⟨_, rfl⟩
  · exact absurd ⟨named, at_, led, notDir, rfl⟩ (refused _)

/-- A file can be written where its directory is there and its place holds a file or nothing. -/
theorem writeWholeWithMode_succeeds (sound : d.WellFormed)
    (there : parentOf p = "" ∨ d.isDirectory (parentOf p) = true) (named : checkFileName p = .ok ())
    (led : d.place false p = .ok at_) (free : ∀ e, d.entryAt at_ = some e → e.isFile = true) :
    ∃ d', outcome (writeWholeWithMode p content mode) d = (.ok (), d') := by
  have notLink : ∀ t, d.entryAt at_ ≠ some (.link t) := by
    intro t entry
    cases free _ entry
  have notDir : d.isDirectoryAt at_ = false := by
    rw [Bool.eq_false_iff]
    intro isDir
    obtain ⟨m, entry⟩ := isDirectoryAt_iff.mp isDir
    cases free _ entry
  have replaces : Replaces p content d (d.put at_ (d.newFile content privateFileMode)) :=
    ⟨named, at_, led, notDir, rfl⟩
  have later := replaces.later sound led notLink
  exact writeWholeWithMode_of_stops sound there named led notDir (later.place led)

/-- When a file has come, names lead to where they led or to the file, or they run into it. -/
theorem walk_of_differs {through : Bool} {longest fuel links left : Nat} {xs : List String}
    {start goal : Place} (bounded : d'.LinksWithin longest) (differs : Differs at_ d d')
    (leads : Leads d through links start xs left goal) (enough : stepsFor longest links xs ≤ fuel) :
    d'.walk through fuel links start xs = .error .notDirectory ∨
      ∃ goal', d'.walk through fuel links start xs = .ok goal' ∧ (goal' = goal ∨ goal' = at_) := by
  obtain ⟨e, there, isFile⟩ := differs.isFile
  have notDir := isDirectoryAt_of_file there isFile
  have directories : ∀ {here}, d.isDirectoryAt here = true → d'.isDirectoryAt here = true := differs.isDirectoryAt
  -- a walk that comes to the file ends there
  have atFile : ∀ {fuel links rest goal}, stepsFor longest links rest ≤ fuel →
      d'.walk through fuel links at_ rest = .error .notDirectory ∨
        ∃ goal', d'.walk through fuel links at_ rest = .ok goal' ∧ (goal' = goal ∨ goal' = at_) := by
    intro fuel links rest goal enough
    obtain ⟨fuel, rfl⟩ := exists_succ_of_stepsFor enough
    rcases rest with _ | ⟨next, rest⟩
    · exact .inr ⟨at_, rfl, .inr rfl⟩
    · rw [walk, if_pos (by simp [notDir]), there]
      exact .inl rfl
  induction leads generalizing fuel with
  | done =>
    obtain ⟨fuel, rfl⟩ := exists_succ_of_stepsFor enough
    exact .inr ⟨_, rfl, .inl rfl⟩
  | void isDir void _ ih =>
    obtain ⟨fuel, rfl, room⟩ := stepsFor_rest enough
    rw [walk_void (directories isDir) void]
    exact ih room
  | up isDir _ ih =>
    obtain ⟨fuel, rfl, room⟩ := stepsFor_rest enough
    rw [walk_up (directories isDir)]
    exact ih room
  | @down links left here goal name rest isDir isStep free _ ih =>
    obtain ⟨fuel, rfl, room⟩ := stepsFor_rest enough
    by_cases same : here ++ [name] = at_
    · rw [walk_down (directories isDir) isStep (by rw [same]; exact notLink_of_file there isFile), same]
      exact atFile room
    · rw [walk_down (directories isDir) isStep (by rw [differs.elsewhere _ same]; exact free)]
      exact ih room
  | @halt links here name target isDir isStep entry stops =>
    obtain ⟨fuel, rfl, room⟩ := stepsFor_rest enough
    by_cases same : here ++ [name] = at_
    · rw [walk_down (directories isDir) isStep (by rw [same]; exact notLink_of_file there isFile), same]
      exact atFile room
    · rw [walk_halt (directories isDir) isStep ((differs.elsewhere _ same).trans entry) stops]
      exact .inr ⟨_, rfl, .inl rfl⟩
  | @follow links left here goal name target rest isDir isStep entry goesOn nonempty _ ih =>
    by_cases same : here ++ [name] = at_
    · obtain ⟨fuel, rfl, room⟩ := stepsFor_rest enough
      have notLink : ∀ t, d'.entryAt (here ++ [name]) ≠ some (.link t) := by
        rw [same]
        exact notLink_of_file there isFile
      rw [walk_down (directories isDir) isStep notLink, same]
      exact atFile room
    · have entry' := (differs.elsewhere _ same).trans entry
      obtain ⟨fuel, rfl, room⟩ := stepsFor_follow (bounded _ _ entry') enough
      rw [walk_follow (directories isDir) isStep entry' goesOn nonempty]
      exact ih room

/-- When a file has come, a path leads to where it led or to the file, or it runs into it. -/
theorem place_of_differs {through : Bool} {goal : Place} (differs : Differs at_ d d')
    (led : d.place through p = .ok goal) : d'.place through p = .error .notDirectory ∨
      ∃ goal', d'.place through p = .ok goal' ∧ (goal' = goal ∨ goal' = at_) := by
  obtain ⟨faultless, left, leads⟩ := place_eq_ok_iff.mp led
  rw [← differs.workingPlace] at leads
  obtain ⟨longest, bounded, enough⟩ := d'.walkFuel_suffices p
  have walked := walk_of_differs bounded differs leads enough
  have placed : d'.place through p = d'.walk through (d'.walkFuel p) mostLinks
      (startOf d'.workingPlace p) (Path.names p) := by
    rw [place, faultless]
    rfl
  rwa [← placed] at walked

/-- A path to something does not come to lead to nothing when a file has come. -/
theorem find_of_differs {goal : Place} (differs : Differs at_ d d')
    (found : d.find true p = .ok (goal, e)) : d'.find true p ≠ .error .notFound := by
  obtain ⟨led, entry⟩ := find_eq_ok_iff.mp found
  rw [find]
  rcases place_of_differs differs led with lost | ⟨goal', led', reached⟩
  · rw [lost]
    intro failed
    cases failed
  · have there : ∃ e', d'.entryAt goal' = some e' := by
      obtain ⟨file, isThere, _⟩ := differs.isFile
      by_cases same : goal' = at_
      · exact ⟨file, same ▸ isThere⟩
      · obtain rfl := reached.resolve_right same
        exact ⟨e, (differs.elsewhere _ same).trans entry⟩
    obtain ⟨e', there⟩ := there
    rw [led']
    simp only [bind, Except.bind, there]
    intro failed
    cases failed

end Keyring.Disk

import Keyring.Proofs.Managed.Stages

/-!
# What a rewriting touches

A dry run answers as a run would, and leaves everything as it is. A run that changes a
configuration writes it and the file of its backups. Where the path of its directory
leads nowhere, that path is paved first, and the directory that it leads to then is made
private, new or not.
-/

namespace Keyring.Managed

open Disk Text

variable {d d' : Disk} {p : Path} {at_ : Place} {old : Option String} {new : String} {backup : Option Path}
  {w w' : World}

/-- At the place that a path leads to is a file with this text, for its owner only. -/
def HoldsAlone (d : Disk) (p : Path) (at_ : Place) (s : String) : Prop :=
  ∃ modified, d.find true p = .ok (at_, .file (.text s) privateFileMode modified)

/-- The last name of a path is no link. -/
def IsPlain (d : Disk) (p : Path) : Prop :=
  ∀ at_ t, d.place false p = .ok at_ → d.entryAt at_ ≠ some (.link t)

/-- What a configuration with a new text leaves of a disk, from its former text and the path of its
backup. -/
inductive Rewritten (p : Path) (new : String) (d d' : Disk) : Option String → Option Path → Prop
  /-- The former text is beside the new one. -/
  | replaced {text : String} {at_ kept : Place} (there : d.place true p = .ok at_) (apart : kept ≠ at_)
      (holds : HoldsAlone d' p at_ new) (keeps : HoldsAlone d' (Layout.backupFile p) kept text)
      (elsewhere : ∀ here, here ≠ at_ → here ≠ kept → d'.entryAt here = d.entryAt here) :
      Rewritten p new d d' (some text) (some (Layout.backupFile p))
  /-- The configuration is new, in a directory that was there. -/
  | made {at_ : Place} (there : parentOf p = "" ∨ d.exists_ (parentOf p) = true)
      (free : d.entryAt at_ = none) (noBackup : d.place false (Layout.backupFile p) ≠ .ok at_)
      (holds : HoldsAlone d' p at_ new)
      (elsewhere : ∀ here, here ≠ at_ → d'.entryAt here = d.entryAt here) : Rewritten p new d d' none none
  /-- The path of the directory led nowhere, and was paved. The directory that it leads to then is private,
  and if it is new so is the configuration. -/
  | madeBelow {paved : Disk} {at_ dir : Place} (below : parentOf p ≠ "")
      (missing : d.exists_ (parentOf p) = false) (paves : Paves (parentOf p) d paved)
      (led : paved.place true (parentOf p) = .ok dir)
      (isPrivate : d'.entryAt dir = some (.directory (if dir = [] then 0o755 else 0o700)))
      (free : d.entryAt dir = none → d.entryAt at_ = none ∧ d'.place false (Layout.backupFile p) ≠ .ok at_)
      (holds : HoldsAlone d' p at_ new)
      (elsewhere : ∀ here, here ≠ at_ → here ≠ dir → d'.entryAt here = paved.entryAt here) :
      Rewritten p new d d' none none

/-- When the former text has come beside it, a configuration that is no link is where it was. -/
theorem place_beside {kept goal : Place} (plain : IsPlain d p) (stopped : d.place false p = .ok at_)
    (named : checkFileName p = .ok ()) (keptAt : d.place false (Layout.backupFile p) = .ok kept)
    (differs : Differs kept d d') (led : d'.place true p = .ok goal) : goal = at_ := by
  obtain ⟨here, stopped', reached⟩ := place_false_of_true led
  obtain lost | ⟨_, again, same⟩ := place_of_differs differs stopped
  · rw [stopped'] at lost
    cases lost
  rw [stopped'] at again
  obtain rfl := Except.ok.inj again
  have other : here ≠ kept := by
    rintro rfl
    exact place_backupFile_ne named stopped' keptAt
  obtain rfl := same.resolve_right other
  refine (reached.resolve_right ?_).symm
  rintro ⟨t, isLink⟩
  rw [differs.elsewhere _ other] at isLink
  exact plain _ t stopped isLink

theorem rewritten_of_text {text : String} (sound : d.WellFormed) (plain : IsPlain d p)
    (read : d.readText p = .ok text) (done : outcome (replaceText p (some text) new) d = (.ok backup, d')) :
    Rewritten p new d d' (some text) backup := by
  obtain ⟨at_, mode, modified, found⟩ := find_of_readText read
  obtain ⟨led, entry⟩ := find_eq_ok_iff.mp found
  have named := checkFileName_of_file sound found rfl
  obtain ⟨here, stopped, reached⟩ := place_false_of_true led
  obtain rfl := reached.resolve_right fun ⟨t, isLink⟩ => plain _ t stopped isLink
  rw [outcome_replaceText_some sound read] at done
  obtain ⟨_, d₁, saved, done⟩ := of_outcome_bind_ok done
  obtain ⟨rfl, target, aimed, written⟩ := writeTarget_spec done
  obtain ⟨e, failed, _⟩ | ⟨kept, result, d₂, keptAt, run, sound₁, differs, keeps⟩ :=
    writeWholeWithMode_ends sound (backup_isDirectory named led) (.text text) privateFileMode
  · rw [failed] at saved
    cases saved
  rw [run] at saved
  obtain ⟨rfl, rfl⟩ := Prod.mk.inj saved
  obtain ⟨_, modified', keeps⟩ := keeps rfl
  -- the new text is written where the old one was
  obtain ⟨goal, e', there₁, rfl⟩ := target_of_differs differs found aimed
  have led₁ := (find_eq_ok_iff.mp there₁).1
  obtain rfl := place_beside plain stopped named keptAt differs led₁
  have apart : kept ≠ goal := by
    rintro rfl
    exact place_backupFile_ne named stopped keptAt
  have differs' := differs_of_writeCanonical sound₁ there₁ written
  obtain ⟨_, at_, modified'', found'⟩ := find_of_writeTarget sound₁ aimed written
  have later : Later (· = goal) d₂ (outcome (writeWholeWithMode (pathOf goal) (.text new) privateFileMode) d₂).2 :=
    keeps_writeCanonical sound₁ led₁
  rw [written] at later
  have again := (find_eq_ok_iff.mp found').1
  rw [later.place led₁] at again
  obtain rfl := Except.ok.inj again
  obtain ⟨keptLed, keptEntry⟩ := find_eq_ok_iff.mp keeps
  refine .replaced led apart ⟨_, found'⟩ ⟨modified', find_eq_ok_iff.mpr ⟨later.place keptLed, ?_⟩⟩ ?_
  · exact (differs'.elsewhere kept apart).trans keptEntry
  · exact fun here other otherKept =>
      (differs'.elsewhere here other).trans (differs.elsewhere here otherKept)

/-- Where a path leads to nothing and its last name is no link, nothing is there. -/
theorem free_of_missing (plain : IsPlain d p) (missing : d.find true p = .error .notFound)
    (led : d.place true p = .ok at_ ∨ d.place false p = .ok at_) :
    d.place false p = .ok at_ ∧ d.entryAt at_ = none := by
  have stops : d.place false p = .ok at_ := by
    rcases led with led | stopped
    · obtain ⟨here, stopped, reached⟩ := place_false_of_true led
      rwa [← reached.resolve_right fun ⟨t, isLink⟩ => plain here t stopped isLink]
    · exact stopped
  refine ⟨stops, ?_⟩
  rcases entry : d.entryAt at_ with _ | e
  · rfl
  · have found := find_eq_ok_iff.mpr ⟨place_true_of_notLink stops fun t => plain at_ t stops, entry⟩
    rw [missing] at found
    cases found

/-- In a directory that was not there a configuration is new. -/
theorem free_of_fresh {d₀ : Disk} {dir : Place} (sound : d.WellFormed) (grows : Grows d d₀)
    (fresh : d.entryAt dir = none) (below : parentOf p ≠ "") (parent : d₀.place true (parentOf p) = .ok dir)
    (named : checkFileName p = .ok ()) (led : d₀.place true p = .ok at_ ∨ d₀.place false p = .ok at_) :
    d₀.place false p = .ok at_ ∧ d.entryAt at_ = none := by
  have empty : ∀ name, d.entryAt (dir ++ [name]) = none := by
    intro name
    rcases entry : d.entryAt (dir ++ [name]) with _ | e
    · rfl
    · obtain ⟨mode, known⟩ := isDirectoryAt_iff.mp (sound.isDirectoryAt_of_child entry)
      rw [fresh] at known
      cases known
  obtain ⟨here, stopped, reached⟩ : ∃ here, d₀.place false p = .ok here ∧
      (here = at_ ∨ ∃ t, d₀.entryAt here = some (.link t)) :=
    led.elim place_false_of_true fun stopped => ⟨at_, stopped, .inl rfl⟩
  obtain ⟨front, last, whole, isNamed, notUp⟩ := checkFileName_eq_ok_iff.mp named
  obtain ⟨mid, parent', -, ends⟩ := place_in_parent whole isNamed notUp stopped
  have same : mid = dir := Except.ok.inj ((parent'.resolve_left below).symm.trans parent)
  obtain rfl : here = dir ++ [String.ofList last] := same ▸ ends.resolve_right nofun
  obtain rfl := reached.resolve_right fun ⟨t, isLink⟩ => by
    rw [grows.links, empty] at isLink
    cases isLink
  exact ⟨stopped, empty _⟩

theorem rewritten_of_nothing (sound : d.WellFormed) (plain : IsPlain d p)
    (missing : d.find true p = .error .notFound) (done : outcome (replaceText p none new) d = (.ok backup, d')) :
    Rewritten p new d d' none backup := by
  rw [replaceText_none] at done
  obtain ⟨_, d₀, prepared, done⟩ := of_outcome_bind_ok done
  obtain ⟨rfl, target, aimed, written⟩ := writeTarget_spec done
  by_cases there : parentOf p = "" ∨ d.exists_ (parentOf p) = true
  · rw [outcome_prepareParent_of_exists there] at prepared
    obtain ⟨_, rfl⟩ := Prod.mk.inj prepared
    have aimed' : targetOf d p = .ok p := by
      rw [targetOf, canonical_eq_error_iff.mpr missing]
    obtain rfl := Except.ok.inj (aimed.symm.trans aimed')
    obtain ⟨at_, _, found, differs, led⟩ :=
      differs_of_writeTarget sound (isDirectory_of_written sound there written) done
    obtain ⟨stopped, free⟩ := free_of_missing plain missing led
    have named := checkFileName_of_notDirectory sound stopped differs.free
    exact .made there free (place_backupFile_ne named stopped) ⟨_, found⟩ differs.elsewhere
  · obtain ⟨below, absent⟩ := not_or.mp there
    rw [Bool.not_eq_true] at absent
    obtain ⟨paved, dir, paves, led, grows, isPrivate, apart⟩ := prepared_spec sound below absent prepared
    have isDir : d₀.isDirectory (parentOf p) = true :=
      isDirectory_iff.mpr ⟨dir, grows.place led, isDirectoryAt_of_entryAt isPrivate⟩
    obtain ⟨at_, _, found, differs, reached⟩ := differs_of_writeTarget grows.sound (.inr isDir) done
    have other : dir ≠ at_ := by
      rintro rfl
      have notDir := differs.free
      rw [isDirectoryAt_of_entryAt isPrivate] at notDir
      cases notDir
    refine .madeBelow below absent paves led ((differs.elsewhere dir other).trans isPrivate) ?_ ⟨_, found⟩ ?_
    · intro fresh
      have named : checkFileName p = .ok () :=
        reached.elim (checkFileName_of_notDirectory grows.sound · differs.free)
          (checkFileName_of_notDirectory grows.sound · differs.free)
      obtain ⟨stopped, free⟩ := free_of_fresh sound (paves.grows.trans grows) fresh below (grows.place led) named reached
      exact ⟨free, place_backupFile_ne named stopped⟩
    · exact fun here other otherDir => (differs.elsewhere here other).trans (apart here otherDir)

theorem rewritten_of_replaceText (sound : d.WellFormed) (plain : IsPlain d p)
    (read : d.readOptional p = .ok old) (done : outcome (replaceText p old new) d = (.ok backup, d')) :
    Rewritten p new d d' old backup := by
  rcases old with _ | text
  · exact rewritten_of_nothing sound plain (readOptional_eq_none_iff.mp read) done
  · exact rewritten_of_text sound plain (readOptional_eq_some read) done

/-- What a run answers and leaves when a dry run has answered with an outcome: what the dry run told, unless
files cannot be accessed. -/
inductive Follows (p : Path) (old : Option String) (told : Outcome) (w : World) :
    Except Error Outcome → World → Prop
  | stays {o : Outcome} (unchanged : told.changed = false) (same : o = { told with dryRun := false }) :
      Follows p old told w (.ok o) w
  | writes {o : Outcome} {d : Disk} (changed : told.changed = true)
      (same : o = { told with dryRun := false, backup := o.backup })
      (rewritten : Rewritten p told.content w.disk d old o.backup) :
      Follows p old told w (.ok o) { w with disk := d }
  | stops {e : FileError} {d : Disk} (changed : told.changed = true) :
      Follows p old told w (.error (.fileAccess e)) { w with disk := d }

/-- A dry run of a configuration that is no link leaves everything as it is. A run is refused with the same
error and leaves everything as it is, or it does what the dry run told. -/
theorem run_follows_dry_run {r : Rewriting} {dry wet : Except Error Outcome} {w₁ : World}
    (sound : w.disk.WellFormed) (plain : IsPlain w.disk p) (read : w.disk.readOptional p = .ok old)
    (dryRan : outcome (r.run p true) w = (dry, w₁)) (ran : outcome (r.run p false) w = (wet, w')) :
    w₁ = w ∧ match dry with
      | .error e => wet = .error e ∧ w' = w
      | .ok told => Follows p old told w wet w' := by
  rw [outcome_run, read] at dryRan ran
  dsimp only at dryRan ran
  rcases planned : r.plan w.inventory (old.getD "").toList with e | ⟨new, found⟩
  · rw [planned] at dryRan ran
    cases dryRan
    cases ran
    exact ⟨rfl, rfl, rfl⟩
  rw [planned] at dryRan ran
  dsimp only at dryRan ran
  rw [outcome_conclude, if_pos (.inr rfl)] at dryRan
  cases dryRan
  refine ⟨rfl, ?_⟩
  rw [outcome_conclude] at ran
  by_cases same : old.getD "" = String.ofList new
  · rw [if_pos (.inl same)] at ran
    cases ran
    exact .stays (by simp [same]) rfl
  · rw [if_neg (by simpa using same)] at ran
    have changed : decide (old.getD "" ≠ String.ofList new) = true := by simpa using same
    rcases written : outcome (replaceText p old (String.ofList new)) w.disk with ⟨e | backup, d⟩
    · rw [written] at ran
      cases ran
      exact .stops changed
    · rw [written] at ran
      cases ran
      refine .writes changed ?_ (rewritten_of_replaceText sound plain read written)
      simp [changed]

/-- A directory that others can read. -/
def sharedWorld : World := quietWorld (emptyDisk.put ["etc"] (.directory 0o755))

/-- The directory was there, but not the path that is taken to it: it becomes private. -/
theorem told_of_sharedWorld : ∃ told, sharedWorld.disk.WellFormed ∧
    IsPlain sharedWorld.disk "etc/x/../cfg" ∧ sharedWorld.disk.readOptional "etc/x/../cfg" = .ok none ∧
      outcome (sync "etc/x/../cfg" true) sharedWorld = (.ok told, sharedWorld) ∧
      Follows "etc/x/../cfg" none told sharedWorld (outcome (sync "etc/x/../cfg" false) sharedWorld).1
        (outcome (sync "etc/x/../cfg" false) sharedWorld).2 ∧
      sharedWorld.disk.entryAt ["etc"] = some (.directory 0o755) ∧
      (outcome (sync "etc/x/../cfg" false) sharedWorld).2.disk.entryAt ["etc"] = some (.directory 0o700) := by
  have sound : sharedWorld.disk.WellFormed := wellFormed_of_entries (by decide +kernel)
  have nowhere : sharedWorld.disk.place false "etc/x/../cfg" = .error .notFound := by decide +kernel
  have plain : IsPlain sharedWorld.disk "etc/x/../cfg" := by
    intro at_ t led
    rw [nowhere] at led
    cases led
  have read : sharedWorld.disk.readOptional "etc/x/../cfg" = .ok none := by decide +kernel
  have succeeds : (outcome (sync "etc/x/../cfg" true) sharedWorld).1.isOk = true := by decide +kernel
  rcases dryRan : outcome (sync "etc/x/../cfg" true) sharedWorld with ⟨e | told, w₁⟩
  · rw [dryRan] at succeeds
    cases succeeds
  · obtain ⟨rfl, follows⟩ := run_follows_dry_run (r := .sync) (w := sharedWorld) sound plain read dryRan rfl
    exact ⟨told, sound, plain, read, rfl, follows, by decide +kernel, by decide +kernel⟩

end Keyring.Managed

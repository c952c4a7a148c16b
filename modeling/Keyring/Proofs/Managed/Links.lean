import Keyring.Proofs.Managed.Stages

/-!
# A configuration behind a link

Where the path of a configuration ends at a link, the new text goes through it. One
link is lost: that of a target which is missing, when there is a text to be written.
-/

namespace Keyring.Managed

open Disk Text

variable {d d' : Disk} {p : Path} {at_ : Place} {target : String} {w w' : World}

/-- A link that stays, as what is written goes where it leads. -/
structure SparesLink (p : Path) (at_ : Place) (target : String) (d d' : Disk) : Prop where
  stays : d'.entryAt at_ = some (.link target)
  /-- Unless the former text takes the place of another link on the way. -/
  leads : (∀ kept t, d.place false (Layout.backupFile p) = .ok kept → d.entryAt kept ≠ some (.link t)) →
    d'.place true p = d.place true p
  files : ∀ here e, d'.entryAt here = some e → e.isFile = true →
    d.entryAt here = some e ∨ d'.place true p = .ok here ∨ d.place false (Layout.backupFile p) = .ok here

theorem SparesLink.refl (isLink : d.entryAt at_ = some (.link target)) : SparesLink p at_ target d d :=
  ⟨isLink, fun _ => rfl, fun _ _ entry _ => .inl entry⟩

/-- A link that was spared so far stays when the new text is written where the path leads. -/
theorem SparesLink.later {d₁ : Disk} {goal : Place} (spares : SparesLink p at_ target d d₁)
    (led : d₁.place true p = .ok goal) (later : Later (· = goal) d₁ d') : SparesLink p at_ target d d' where
  stays := (later.links at_ target).mpr spares.stays
  leads := fun free => by rw [later.place led, ← led, spares.leads free]
  files := by
    intro here e entry isFile
    by_cases same : here = goal
    · exact .inr (.inl (same ▸ later.place led))
    · have before := (later.files here same e isFile).mp entry
      exact (spares.files here e before isFile).imp_right (.imp_left fun led' => by
        rw [led] at led'
        rw [later.place led, Except.ok.inj led'])

/-- A link is spared while the former text is kept beside it, and the path does not come to lead to
nothing. -/
theorem sparesLink_backup {text : String} (sound : d.WellFormed) (led : d.place false p = .ok at_)
    (isLink : d.entryAt at_ = some (.link target)) (read : d.readText p = .ok text) :
    ∃ result d₁, outcome (writeWholeWithMode (Layout.backupFile p) (.text text) privateFileMode) d =
      (result, d₁) ∧ d₁.WellFormed ∧ SparesLink p at_ target d d₁ ∧ d₁.find true p ≠ .error .notFound := by
  obtain ⟨goal, mode, modified, found⟩ := find_of_readText read
  have named := checkFileName_of_file sound found rfl
  obtain ⟨e, failed, _⟩ | ⟨kept, result, d₁, led', run, sound₁, differs, _⟩ :=
    writeWholeWithMode_ends sound (backup_isDirectory named led) (.text text) privateFileMode
  · refine ⟨_, d, failed, sound, .refl isLink, ?_⟩
    rw [found]
    exact nofun
  · have other : at_ ≠ kept := by
      rintro rfl
      exact place_backupFile_ne named led led'
    refine ⟨result, d₁, run, sound₁, ⟨(differs.elsewhere at_ other).trans isLink, ?_, ?_⟩,
      find_of_differs differs found⟩
    · intro free
      have later : Later (· = kept) d
          (outcome (writeWholeWithMode (Layout.backupFile p) (.text text) privateFileMode) d).2 :=
        keeps_writeWholeWithMode sound led' fun t => free kept t led'
      rw [run] at later
      rw [later.place (find_eq_ok_iff.mp found).1, (find_eq_ok_iff.mp found).1]
    · intro here e entry _
      by_cases same : here = kept
      · exact .inr (.inr (same ▸ led'))
      · exact .inl ((differs.elsewhere here same).symm.trans entry)

/-- What is written to a configuration that is there goes where its path leads. -/
theorem later_of_writeTarget (sound : d.WellFormed) (known : d.find true p ≠ .error .notFound) (new : String)
    (backup : Option Path) : (outcome (writeTarget p new backup) d).2 = d ∨
      ∃ goal, d.place true p = .ok goal ∧ Later (· = goal) d (outcome (writeTarget p new backup) d).2 := by
  rw [writeTarget, outcome_bind, outcome_ask, targetOf]
  rcases located : d.canonical p with e | q
  · cases e
    case notFound => exact absurd (canonical_eq_error_iff.mp located) known
    all_goals exact .inl rfl
  · obtain ⟨goal, e, there, rfl⟩ := canonical_eq_ok_iff.mp located
    have led := (find_eq_ok_iff.mp there).1
    have later : Later (· = goal) d (outcome (writeWholeWithMode (pathOf goal) (.text new) privateFileMode) d).2 :=
      keeps_writeCanonical sound led
    refine .inr ⟨goal, led, ?_⟩
    dsimp only
    rw [outcome_bind]
    rcases run : outcome (writeWholeWithMode (pathOf goal) (.text new) privateFileMode) d with ⟨e | u, d₁⟩
    · rwa [run] at later
    · rwa [run] at later

theorem sparesLink_replaceText {text new : String} (sound : d.WellFormed) (led : d.place false p = .ok at_)
    (isLink : d.entryAt at_ = some (.link target)) (read : d.readText p = .ok text) :
    SparesLink p at_ target d (outcome (replaceText p (some text) new) d).2 := by
  rw [outcome_replaceText_some sound read, outcome_bind]
  obtain ⟨result, d₁, saved, sound₁, spares, known⟩ := sparesLink_backup sound led isLink read
  rw [saved]
  rcases result with e | u
  · exact spares
  · dsimp only
    rcases later_of_writeTarget sound₁ known new (some (Layout.backupFile p)) with same | ⟨goal, led₁, later⟩
    · rw [same]
      exact spares
    · exact spares.later led₁ later

/-- Where the link of a missing target is, a text comes. -/
theorem differs_replaceText_of_missing (sound : d.WellFormed) (led : d.place false p = .ok at_)
    (isLink : d.entryAt at_ = some (.link target)) (missing : d.find true p = .error .notFound) (new : String) :
    Differs at_ d (outcome (replaceText p none new) d).2 := by
  have notDir : d.isDirectoryAt at_ = false := by
    rw [isDirectoryAt, isLink]
  have named := checkFileName_of_notDirectory sound led notDir
  have there := parent_isDirectory named led
  have aimed : targetOf d p = .ok p := by
    rw [targetOf, canonical_eq_error_iff.mpr missing]
  rw [replaceText_none, outcome_bind, outcome_prepareParent there]
  dsimp only
  rw [writeTarget, outcome_bind, outcome_ask, aimed]
  dsimp only
  obtain ⟨e, _, refused⟩ | ⟨here, result, d', led', run, _, differs, _⟩ :=
    writeWholeWithMode_ends sound there (.text new) privateFileMode
  · exact absurd ⟨named, at_, led, notDir, rfl⟩ (refused _)
  · rw [led] at led'
    obtain rfl := Except.ok.inj led'
    rw [outcome_bind, run]
    rcases result with e | u
    · exact differs
    · exact differs

/-- The way in which a link is lost: its target is missing, and there is a text to be written. -/
structure Severs (r : Rewriting) (p : Path) (dryRun : Bool) (w : World) : Prop where
  wet : dryRun = false
  missing : w.disk.find true p = .error .notFound
  some : ∃ new found, r.plan w.inventory [] = .ok (new, found) ∧ new ≠ []

variable {r : Rewriting} {dryRun : Bool} {old : Option String} {new : List Char} {found : List String}

theorem severs_iff (read : w.disk.readOptional p = .ok old)
    (planned : r.plan w.inventory (old.getD "").toList = .ok (new, found)) :
    Severs r p dryRun w ↔ dryRun = false ∧ old = none ∧ new ≠ [] := by
  constructor
  · intro severs
    have read' := readOptional_eq_none_iff.mpr severs.missing
    obtain rfl := Except.ok.inj (read.symm.trans read')
    obtain ⟨new', found', planned', some⟩ := severs.some
    cases planned.symm.trans planned'
    exact ⟨severs.wet, rfl, some⟩
  · rintro ⟨wet, rfl, some⟩
    exact ⟨wet, readOptional_eq_none_iff.mp read, new, found, planned, some⟩

/-- Where a configuration is given another text, its link is lost if nothing was there. -/
theorem severs_iff_of_other (read : w.disk.readOptional p = .ok old)
    (planned : r.plan w.inventory (old.getD "").toList = .ok (new, found))
    (other : old.getD "" ≠ String.ofList new) (wet : dryRun = false) : Severs r p dryRun w ↔ old = none := by
  rw [severs_iff read planned]
  refine ⟨fun severs => severs.2.1, fun none => ⟨wet, none, ?_⟩⟩
  rintro rfl
  rw [none] at other
  exact other rfl

theorem replaceText_through_link (sound : d.WellFormed) (led : d.place false p = .ok at_)
    (isLink : d.entryAt at_ = some (.link target)) (read : d.readOptional p = .ok old) (new : String) :
    (old ≠ none → SparesLink p at_ target d (outcome (replaceText p old new) d).2) ∧
      (old = none → Differs at_ d (outcome (replaceText p old new) d).2) := by
  rcases old with _ | text
  · exact ⟨fun some => absurd rfl some,
      fun _ => differs_replaceText_of_missing sound led isLink (readOptional_eq_none_iff.mp read) new⟩
  · exact ⟨fun _ => sparesLink_replaceText sound led isLink (readOptional_eq_some read), nofun⟩

/-- A configuration behind a link: the link stays and what is written goes where it leads, or its target was
missing and the new text is in the place of the link. In either case the path leads to that text when the
configuration was changed. -/
theorem run_through_link {result : Except Error Outcome} (sound : w.disk.WellFormed)
    (led : w.disk.place false p = .ok at_) (isLink : w.disk.entryAt at_ = some (.link target))
    (ran : outcome (r.run p dryRun) w = (result, w')) :
    (¬Severs r p dryRun w → SparesLink p at_ target w.disk w'.disk) ∧
      (Severs r p dryRun w → Differs at_ w.disk w'.disk) ∧
      ∀ o, result = .ok o → o.changed = true → dryRun = false → ∃ goal modified,
        w'.disk.find true p = .ok (goal, .file (.text o.content) privateFileMode modified) := by
  have came := ran_run r p dryRun w
  rw [ran] at came
  cases came with
  | unread read =>
    refine ⟨fun _ => .refl isLink, fun severs => ?_, nofun⟩
    rw [readOptional_eq_none_iff.mpr severs.missing] at read
    cases read
  | @refused old e read planned =>
    refine ⟨fun _ => .refl isLink, fun severs => ?_, nofun⟩
    obtain ⟨new, found, planned', _⟩ := severs.some
    obtain rfl : old = none := Except.ok.inj (read.symm.trans (readOptional_eq_none_iff.mpr severs.missing))
    cases planned.symm.trans planned'
  | idle read planned stays =>
    refine ⟨fun _ => .refl isLink, fun severs => ?_, ?_⟩
    · obtain ⟨wet, rfl, some⟩ := (severs_iff read planned).mp severs
      have same := congrArg String.toList (stays.resolve_right (by simp [wet]))
      rw [String.toList_ofList] at same
      exact absurd same.symm some
    · rintro o ⟨⟩ changed wet
      exact absurd (stays.resolve_right (by simp [wet])) (of_decide_eq_true changed)
  | failed read planned other wet written =>
    rw [severs_iff_of_other read planned other wet]
    obtain ⟨spared, severed⟩ := replaceText_through_link sound led isLink read (String.ofList _)
    rw [written] at spared severed
    exact ⟨spared, severed, nofun⟩
  | wrote read planned other wet written =>
    rw [severs_iff_of_other read planned other wet]
    obtain ⟨spared, severed⟩ := replaceText_through_link sound led isLink read (String.ofList _)
    rw [written] at spared severed
    obtain ⟨_, holds, _⟩ := replaceText_spec sound (fun s some => readOptional_eq_some (some ▸ read)) written
    refine ⟨spared, severed, ?_⟩
    rintro o ⟨⟩ _ _
    exact holds

/-- A link whose target is missing, in a directory that is there. -/
def danglingWorld : World :=
  quietWorld ((emptyDisk.put ["dotfiles"] (.directory directoryMode)).put ["cfg"] (.link "dotfiles/config"))

/-- The section comes in the place of the link. -/
theorem severed_of_danglingWorld : danglingWorld.disk.WellFormed ∧
    danglingWorld.disk.place false "cfg" = .ok ["cfg"] ∧
    danglingWorld.disk.entryAt ["cfg"] = some (.link "dotfiles/config") ∧
    Differs ["cfg"] danglingWorld.disk (outcome (sync "cfg" false) danglingWorld).2.disk := by
  have sound : danglingWorld.disk.WellFormed := wellFormed_of_entries (by decide +kernel)
  have led : danglingWorld.disk.place false "cfg" = .ok ["cfg"] := by decide +kernel
  have isLink : danglingWorld.disk.entryAt ["cfg"] = some (.link "dotfiles/config") := by decide +kernel
  have some : ∃ new found, Rewriting.sync.plan danglingWorld.inventory [] = .ok (new, found) ∧ new ≠ [] := by
    have writes : ((Rewriting.sync.plan danglingWorld.inventory []).toOption.map (·.1.isEmpty)) = some false := by
      decide +kernel
    rcases planned : Rewriting.sync.plan danglingWorld.inventory [] with e | ⟨new, found⟩
    · rw [planned] at writes
      cases writes
    · rw [planned] at writes
      refine ⟨new, found, rfl, ?_⟩
      rintro rfl
      cases writes
  have severs : Severs .sync "cfg" false danglingWorld := ⟨rfl, by decide +kernel, some⟩
  exact ⟨sound, led, isLink, (run_through_link (r := .sync) sound led isLink rfl).2.1 severs⟩

end Keyring.Managed

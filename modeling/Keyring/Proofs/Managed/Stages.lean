import Keyring.Proofs.Managed.Rewrite

/-!
# The stages of a rewriting

A configuration is read, a new text is made of it, and that text is written unless
it is the old one: its directory is prepared, the former text kept, the new text
put where the path leads.
-/

namespace Keyring.Managed

open Disk Text

variable {d d' : Disk} {p : Path} {at_ : Place} {content : Content} {mode : Nat} {w : World}

/-- What gives a configuration a new text. -/
inductive Rewriting where
  | sync
  | removal
deriving DecidableEq, Repr

namespace Rewriting

def run (r : Rewriting) (p : Path) (dryRun : Bool) : Op Outcome :=
  match r with
  | sync => Managed.sync p dryRun
  | removal => removeSection p dryRun

/-- The new text, and the hosts of the inventory that it declares elsewhere. -/
def plan (r : Rewriting) (inv : Inventory) (text : List Char) : Except Error (List Char × List String) :=
  match r with
  | sync => do
    let merged ← merge text (block inv)
    return (merged, ← conflicts merged inv)
  | removal => do return (← strip text, [])

end Rewriting

/-! ## Reading and concluding -/

theorem outcome_readOptional (w : World) (p : Path) :
    outcome (Op.onDisk (Disk.ask (·.readOptional p))) w = match w.disk.readOptional p with
      | .ok old => (.ok old, w)
      | .error e => (.error (.fileAccess e), w) := by
  rw [Op.outcome_onDisk, outcome_ask]
  rcases w.disk.readOptional p with e | old <;> rfl

/-- Nothing is written where the text is the old one or nothing is to be done. -/
theorem outcome_conclude (p : Path) (old : Option String) (new : List Char) (found : List String)
    (dryRun : Bool) (w : World) : outcome (conclude p old new found dryRun) w =
      if old.getD "" = String.ofList new ∨ dryRun = true then
        (.ok ⟨p, decide (old.getD "" ≠ String.ofList new), dryRun, none, found, String.ofList new⟩, w)
      else match outcome (replaceText p old (String.ofList new)) w.disk with
        | (.ok backup, d) => (.ok ⟨p, true, false, backup, found, String.ofList new⟩, { w with disk := d })
        | (.error e, d) => (.error (.fileAccess e), { w with disk := d }) := by
  rw [conclude]
  dsimp only
  by_cases stays : old.getD "" = String.ofList new ∨ dryRun = true
  · rw [if_pos stays, if_neg]
    · rfl
    · rcases stays with same | dry
      · simp [same]
      · simp [dry]
  · obtain ⟨other, wet⟩ := not_or.mp stays
    obtain rfl : dryRun = false := by simpa using wet
    rw [if_neg stays, if_pos (by simp [other]), outcome_bind, Op.outcome_onDisk]
    rcases outcome (replaceText p old (String.ofList new)) w.disk with ⟨e | backup, d⟩
    · rfl
    · simp [other]

theorem outcome_run (r : Rewriting) (p : Path) (dryRun : Bool) (w : World) :
    outcome (r.run p dryRun) w = match w.disk.readOptional p with
      | .error e => (.error (.fileAccess e), w)
      | .ok old => match r.plan w.inventory (old.getD "").toList with
        | .error e => (.error e, w)
        | .ok (new, found) => outcome (conclude p old new found dryRun) w := by
  cases r with
  | sync =>
    show outcome (sync p dryRun) w = _
    rw [sync, outcome_bind, outcome_readOptional]
    rcases w.disk.readOptional p with e | old
    · rfl
    · dsimp only
      rw [outcome_bind, Op.outcome_inventory]
      dsimp only
      rw [outcome_bind, Op.outcome_ofExcept, Rewriting.plan]
      rcases merge (old.getD "").toList (block w.inventory) with e | merged
      · rfl
      · dsimp only
        rw [outcome_bind, Op.outcome_ofExcept]
        simp only [bind, Except.bind, pure, Except.pure]
        rcases conflicts merged w.inventory with e | found <;> rfl
  | removal =>
    show outcome (removeSection p dryRun) w = _
    rw [removeSection, outcome_bind, outcome_readOptional]
    rcases w.disk.readOptional p with e | old
    · rfl
    · dsimp only
      rw [outcome_bind, Op.outcome_ofExcept, Rewriting.plan]
      rcases strip (old.getD "").toList with e | stripped <;> rfl

/-- What a run comes to: nothing is done, or the configuration is given a new text. -/
inductive Ran (r : Rewriting) (p : Path) (dryRun : Bool) (w : World) : Except Error Outcome → World → Prop
  | unread {e : FileError} : w.disk.readOptional p = .error e → Ran r p dryRun w (.error (.fileAccess e)) w
  | refused {old : Option String} {e : Error} : w.disk.readOptional p = .ok old →
      r.plan w.inventory (old.getD "").toList = .error e → Ran r p dryRun w (.error e) w
  | idle {old : Option String} {new : List Char} {found : List String} : w.disk.readOptional p = .ok old →
      r.plan w.inventory (old.getD "").toList = .ok (new, found) →
      (old.getD "" = String.ofList new ∨ dryRun = true) →
      Ran r p dryRun w
        (.ok ⟨p, decide (old.getD "" ≠ String.ofList new), dryRun, none, found, String.ofList new⟩) w
  | failed {old : Option String} {new : List Char} {found : List String} {e : FileError} {d : Disk} :
      w.disk.readOptional p = .ok old → r.plan w.inventory (old.getD "").toList = .ok (new, found) →
      old.getD "" ≠ String.ofList new → dryRun = false →
      outcome (replaceText p old (String.ofList new)) w.disk = (.error e, d) →
      Ran r p dryRun w (.error (.fileAccess e)) { w with disk := d }
  | wrote {old : Option String} {new : List Char} {found : List String} {backup : Option Path} {d : Disk} :
      w.disk.readOptional p = .ok old → r.plan w.inventory (old.getD "").toList = .ok (new, found) →
      old.getD "" ≠ String.ofList new → dryRun = false →
      outcome (replaceText p old (String.ofList new)) w.disk = (.ok backup, d) →
      Ran r p dryRun w (.ok ⟨p, true, false, backup, found, String.ofList new⟩) { w with disk := d }

theorem ran_run (r : Rewriting) (p : Path) (dryRun : Bool) (w : World) :
    Ran r p dryRun w (outcome (r.run p dryRun) w).1 (outcome (r.run p dryRun) w).2 := by
  rw [outcome_run]
  rcases read : w.disk.readOptional p with e | old
  · exact .unread read
  dsimp only
  rcases planned : r.plan w.inventory (old.getD "").toList with e | ⟨new, found⟩
  · exact .refused read planned
  dsimp only
  rw [outcome_conclude]
  split
  · rename_i stays
    exact .idle read planned stays
  · rename_i goesOn
    obtain ⟨other, wet⟩ := not_or.mp goesOn
    rcases written : outcome (replaceText p old (String.ofList new)) w.disk with ⟨e | backup, d⟩
    · exact .failed read planned other (by simpa using wet) written
    · exact .wrote read planned other (by simpa using wet) written

/-- A world in which no tool is called, with one host on record. -/
def quietWorld (d : Disk) : World where
  inventory := ⟨Inventory.currentVersion, [], [⟨"web", "example.org", "root", 22, none, [], ⟨0, 0⟩, none, none, none⟩], []⟩
  disk := d
  installed := []
  passesNul := true
  replies := []
  usualReply := .absent
  calls := []

/-- A configuration that was written where it is differs there, and nothing else does. -/
theorem differs_of_writeCanonical {goal : Place} {e : Entry} (sound : d.WellFormed)
    (there : d.find true p = .ok (goal, e))
    (done : outcome (writeWholeWithMode (pathOf goal) content mode) d = (.ok (), d')) : Differs goal d d' := by
  obtain ⟨_, here, _, found, _⟩ := found_of_writeWholeWithMode sound done
  obtain ⟨rfl, later⟩ := later_of_writeCanonical sound there done found
  have led := (find_eq_ok_iff.mp there).1
  have placed : d.place false (pathOf here) = .ok here :=
    place_canonical sound led (place_eq_ok_iff.mp (find_eq_ok_iff.mp found).1).1
  have fits := (sound.fits_of_place led).resolve_left (ne_nil_of_file (find_eq_ok_iff.mp found).2 rfl)
  obtain ⟨e, failed, _⟩ | ⟨goal, result, d'', led', run, _, differs, _⟩ := writeWholeWithMode_ends sound
    (parent_isDirectory (checkFileName_pathOf sound fits) placed) content mode
  · rw [failed] at done
    cases done
  · rw [placed] at led'
    obtain rfl := Except.ok.inj led'
    rw [run] at done
    obtain ⟨_, rfl⟩ := Prod.mk.inj done
    exact differs

/-- A text that was written is in one place, and nothing else differs: where the path led, or where it
stops if nothing was there. -/
theorem differs_of_writeTarget {new : String} {backup backup' : Option Path} (sound : d.WellFormed)
    (there : parentOf p = "" ∨ d.isDirectory (parentOf p) = true)
    (done : outcome (writeTarget p new backup) d = (.ok backup', d')) :
    ∃ at_ modified, d'.find true p = .ok (at_, .file (.text new) privateFileMode modified) ∧ Differs at_ d d' ∧
      (d.place true p = .ok at_ ∨ d.place false p = .ok at_) := by
  obtain ⟨-, target, aimed, written⟩ := writeTarget_spec done
  obtain ⟨_, at_, modified, found⟩ := find_of_writeTarget sound aimed written
  refine ⟨at_, modified, found, ?_⟩
  rw [targetOf] at aimed
  split at aimed
  · rename_i q canonical
    obtain rfl := Except.ok.inj aimed
    obtain ⟨goal, e, known, rfl⟩ := canonical_eq_ok_iff.mp canonical
    have led := (find_eq_ok_iff.mp known).1
    have later : Later (· = goal) d (outcome (writeWholeWithMode (pathOf goal) (.text new) privateFileMode) d).2 :=
      keeps_writeCanonical sound led
    rw [written] at later
    have again := later.place led
    rw [(find_eq_ok_iff.mp found).1] at again
    obtain rfl := Except.ok.inj again
    exact ⟨differs_of_writeCanonical sound known written, .inl led⟩
  · obtain rfl := Except.ok.inj aimed
    obtain ⟨e, failed, _⟩ | ⟨goal, result, d'', led, run, _, differs, found'⟩ :=
      writeWholeWithMode_ends sound there (.text new) privateFileMode
    · rw [failed] at written
      cases written
    · rw [run] at written
      obtain ⟨rfl, rfl⟩ := Prod.mk.inj written
      obtain ⟨_, _, again⟩ := found' rfl
      rw [found] at again
      cases again
      exact ⟨differs, .inr led⟩
  · cases aimed

theorem isDirectory_of_grows {q : Path} (sound : d.WellFormed) (grows : Grows d d') (there : d.exists_ q = true)
    (isDir : d'.isDirectory q = true) : d.isDirectory q = true := by
  obtain ⟨at_, e, led, entry⟩ := exists_iff.mp there
  obtain ⟨here, led', isDirAt⟩ := isDirectory_iff.mp isDir
  rw [grows.place led] at led'
  obtain rfl := Except.ok.inj led'
  refine isDirectory_iff.mpr ⟨at_, led, ?_⟩
  cases e with
  | file content mode modified =>
    have stays := (grows.files at_ (fun h => h) _ rfl).mpr entry
    rw [isDirectoryAt_of_file stays rfl] at isDirAt
    cases isDirAt
  | directory mode => exact isDirectoryAt_of_entryAt entry
  | link target => exact absurd entry (sound.notLink_of_place led target)

/-- A file that was written has its directory. Where something was in place of that before, it was
that directory. -/
theorem isDirectory_of_written (sound : d.WellFormed) (there : parentOf p = "" ∨ d.exists_ (parentOf p) = true)
    (done : outcome (writeWholeWithMode p content mode) d = (.ok (), d')) :
    parentOf p = "" ∨ d.isDirectory (parentOf p) = true := by
  by_cases none : parentOf p = ""
  · exact .inl none
  refine .inr ?_
  obtain ⟨_, d₂, written, -⟩ := of_outcome_bind_ok done
  rw [writeWhole] at written
  dsimp only at written
  rw [← parentOf, if_pos (by simpa using none)] at written
  obtain ⟨_, d₁, made, checked⟩ := of_outcome_bind_ok written
  have grows : Grows d (outcome (ensureDirectory (parentOf p)) d).2 := keeps_ensureDirectory _ d sound
  rw [made] at grows
  rw [outcome_bind, outcome_get] at checked
  dsimp only at checked
  by_cases isDir : d₁.isDirectory (parentOf p) = true
  · exact isDirectory_of_grows sound grows (there.resolve_left none) isDir
  · rw [if_pos (by simpa using isDir)] at checked
    cases checked

/-- A directory that was prepared is private, whether it was there before or not; on the way to it there
are new ones. -/
theorem prepared_spec (sound : d.WellFormed) (some : parentOf p ≠ "") (missing : d.exists_ (parentOf p) = false)
    (done : outcome (prepareParent p) d = (.ok (), d')) :
    ∃ paved dir, Paves (parentOf p) d paved ∧ paved.place true (parentOf p) = .ok dir ∧ Grows paved d' ∧
      d'.entryAt dir = .some (.directory (if dir = [] then 0o755 else 0o700)) ∧
      ∀ here, here ≠ dir → d'.entryAt here = paved.entryAt here := by
  obtain ⟨parent, found⟩ : ∃ parent, Path.parent? p = .some parent := by
    rcases found : Path.parent? p with _ | parent
    · exact absurd (by rw [parentOf, found]; rfl) some
    · exact ⟨parent, rfl⟩
  have same : parentOf p = parent := by rw [parentOf, found, Option.getD_some]
  rw [same] at some missing ⊢
  rw [prepareParent, found] at done
  dsimp only at done
  rw [outcome_bind, outcome_get] at done
  dsimp only at done
  rw [if_pos (by simp [some, missing])] at done
  obtain ⟨_, paved, made, changed⟩ := of_outcome_bind_ok done
  have paves := paving_ensureDirectory parent d sound
  have isDir := isDirectory_of_ensureDirectory sound some made
  rw [made] at paves
  rw [outcome_setMode paves.grows.sound] at changed
  rcases known : paved.find true parent with e | ⟨dir, e⟩
  · rw [known] at changed
    cases changed
  rw [known] at changed
  obtain ⟨-, rfl⟩ := Prod.mk.inj changed
  obtain ⟨led, entry⟩ := find_eq_ok_iff.mp known
  have isDirAt : paved.isDirectoryAt dir = true := by
    obtain ⟨here, led', isDirAt⟩ := isDirectory_iff.mp isDir
    rw [place_withoutEndSlashes led] at led'
    rwa [Except.ok.inj led']
  refine ⟨paved, dir, paves, led, ?_⟩
  by_cases root : dir = []
  · subst root
    rw [if_pos rfl, if_pos rfl]
    exact ⟨.refl paves.grows.sound, rfl, fun _ _ => rfl⟩
  · obtain ⟨m, known⟩ := isDirectoryAt_iff.mp isDirAt
    rw [entry] at known
    obtain rfl := Option.some.inj known
    rw [if_neg root, if_neg root]
    refine ⟨Grows.putDirectory paves.grows.sound (paves.grows.sound.fits dir _ entry root) ?_,
      entryAt_put_self root, fun here other => entryAt_put_of_ne root other⟩
    intro e' entry'
    rw [entry] at entry'
    cases entry'
    rfl

end Keyring.Managed

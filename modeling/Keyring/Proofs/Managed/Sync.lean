import Keyring.Proofs.Managed.Merge
import Keyring.Proofs.Managed.Stages

/-!
# A configuration in step with the inventory

What `sync` leaves behind when it succeeds: a file with the block as its one
section, from which nothing changes with the next `sync`, and from which
`removeSection` gets the former text back.
-/

namespace Keyring.Managed

open Disk Text

variable {w w' : World} {p : Path} {o : Outcome}

/-- What is left of a text when a block has been merged into it and is taken out again. -/
def Restores (text rest : List Char) : Prop :=
  if IsFree text then rest = (if text = [] ∨ endsLine text then text else text ++ ['\n'])
  else strip text = .ok rest

/-- The block of an inventory that has been merged into a text, if the outcome can be stripped. -/
theorem merged_spec {inv : Inventory} {text merged rest : List Char}
    (found : merge text (block inv) = .ok merged) (stripped : strip merged = .ok rest) :
    (∃ q : Parts, q.inside = block inv ∧ q.Divide merged) ∧ merge merged (block inv) = .ok merged ∧
      Restores text rest := by
  have isBlock : IsFree (stanzas inv) → IsBlock (block inv) := .of_free (isClosed_stanzas inv)
  rcases free_or_divide_of_merge found with free | ⟨q, divide⟩
  · obtain rfl : lead text ++ block inv = merged := by simpa [merge_of_free free] using found
    have whole : lead text ++ block inv = lead text ++ block inv ++ [] := (List.append_nil _).symm
    have isBlock := isBlock (free_of_strip_block (isClosed_lead text) (whole ▸ stripped)).2.1
    obtain ⟨again, restored⟩ := isBlock.merged_of_free free
    refine ⟨⟨_, rfl, isBlock.divide_lead free⟩, (again _).trans found, ?_⟩
    rw [Restores, if_pos free]
    exact Except.ok.inj (stripped.symm.trans restored)
  · obtain rfl : q.before ++ block inv ++ q.after = merged := by
      simpa [merge_of_divide divide] using found
    have isBlock := isBlock (free_of_strip_block divide.closed stripped).2.1
    obtain ⟨again, restored⟩ := isBlock.merged_of_divide divide
    have notFree : ¬IsFree text := by
      intro free
      have none := locate_eq_none_iff.mpr free
      rw [locate_of_divide divide] at none
      cases none
    refine ⟨⟨_, rfl, isBlock.divide divide.closed divide.before divide.after⟩, (again _).trans found, ?_⟩
    rw [Restores, if_neg notFree, ← restored]
    exact stripped

/-- An outcome that changed nothing. -/
def unchanged (p : Path) (content : String) (found : List String) : Outcome :=
  ⟨p, false, false, none, found, content⟩

theorem outcome_conclude_same {old : Option String} {new : List Char} {found : List String}
    (same : old.getD "" = String.ofList new) (w : World) :
    outcome (conclude p old new found false) w = (.ok (unchanged p (String.ofList new) found), w) := by
  rw [outcome_conclude, if_pos (.inl same)]
  simp [same, unchanged]

theorem outcome_conclude_other {old : Option String} {new : List Char} {found : List String}
    (other : old.getD "" ≠ String.ofList new) (w : World) :
    outcome (conclude p old new found false) w =
      match outcome (replaceText p old (String.ofList new)) w.disk with
      | (.ok backup, d) => (.ok ⟨p, true, false, backup, found, String.ofList new⟩, { w with disk := d })
      | (.error e, d) => (.error (.fileAccess e), { w with disk := d }) := by
  refine (outcome_conclude p old new found false w).trans ((if_neg (by simpa using other)).trans ?_)
  rcases outcome (replaceText p old (String.ofList new)) w.disk with ⟨e | backup, d⟩
  · rfl
  · rfl

/-- What a conclusion leaves: the new text in the configuration, unless there was none and there
is none. -/
theorem conclude_spec {old : Option String} {new : List Char} {found : List String}
    (sound : w.disk.WellFormed) (readable : ∀ s, old = some s → w.disk.readText p = .ok s)
    (some : old ≠ none ∨ new ≠ []) (done : outcome (conclude p old new found false) w = (.ok o, w')) :
    w'.disk.WellFormed ∧ w'.inventory = w.inventory ∧ w'.disk.readText p = .ok (String.ofList new) ∧
      o.content = String.ofList new ∧ o.conflicts = found ∧ (o.backup.isSome = true → CanSave w'.disk p) := by
  by_cases same : old.getD "" = String.ofList new
  · rw [outcome_conclude_same same] at done
    obtain ⟨answer, rfl⟩ := Prod.mk.inj done
    obtain rfl := Except.ok.inj answer
    rcases old with _ | text
    · have nothing : new = [] := by
        have chars := congrArg String.toList same
        rw [String.toList_ofList] at chars
        exact chars.symm
      exact absurd nothing (some.resolve_left (by simp))
    · refine ⟨sound, rfl, ?_, rfl, rfl, fun h => by cases h⟩
      rw [← same]
      exact readable text rfl
  · rw [outcome_conclude_other same] at done
    rcases written : outcome (replaceText p old (String.ofList new)) w.disk with ⟨e | backup, d⟩
    · rw [written] at done
      cases done
    · rw [written] at done
      cases done
      obtain ⟨sound', ⟨_, _, found⟩, canSave⟩ := replaceText_spec sound readable written
      exact ⟨sound', rfl, readText_of_find found, rfl, rfl, canSave⟩

theorem plan_sync {inv : Inventory} {text merged : List Char} {found : List String} :
    Rewriting.sync.plan inv text = .ok (merged, found) ↔
      merge text (block inv) = .ok merged ∧ conflicts merged inv = .ok found := by
  simp only [Rewriting.plan, bind, Except.bind, pure, Except.pure]
  rcases merge text (block inv) with e | merged'
  · simp
  · dsimp only
    constructor
    · intro planned
      rcases known : conflicts merged' inv with e | found'
      · rw [known] at planned
        cases planned
      · rw [known] at planned
        cases planned
        exact ⟨rfl, known⟩
    · rintro ⟨isMerged, known⟩
      cases isMerged
      rw [known]

theorem outcome_sync {old : Option String} {merged : List Char} {found : List String}
    (read : w.disk.readOptional p = .ok old)
    (isMerged : merge (old.getD "").toList (block w.inventory) = .ok merged)
    (known : conflicts merged w.inventory = .ok found) :
    outcome (sync p false) w = outcome (conclude p old merged found false) w := by
  have ran := outcome_run .sync p false w
  rw [read] at ran
  dsimp only at ran
  rw [plan_sync.mpr ⟨isMerged, known⟩] at ran
  exact ran

/-- A synchronisation that succeeds has read, merged and looked for conflicts. -/
theorem of_outcome_sync (done : outcome (sync p false) w = (.ok o, w')) : ∃ old merged found,
    w.disk.readOptional p = .ok old ∧ merge (old.getD "").toList (block w.inventory) = .ok merged ∧
      conflicts merged w.inventory = .ok found ∧
      outcome (conclude p old merged found false) w = (.ok o, w') := by
  have ran : outcome (Rewriting.sync.run p false) w = (.ok o, w') := done
  rw [outcome_run] at ran
  split at ran
  · cases ran
  rename_i old read
  split at ran
  · cases ran
  rename_i merged found planned
  obtain ⟨isMerged, known⟩ := plan_sync.mp planned
  exact ⟨old, merged, found, read, isMerged, known, ran⟩

theorem outcome_removeSection {text : String} {rest : List Char} (read : w.disk.readText p = .ok text)
    (stripped : strip text.toList = .ok rest) :
    outcome (removeSection p false) w = outcome (conclude p (some text) rest [] false) w := by
  have ran := outcome_run .removal p false w
  rw [readOptional_of_readText read] at ran
  simp only [Rewriting.plan, Option.getD_some, stripped, bind, Except.bind, pure, Except.pure] at ran
  exact ran

theorem strip_of_conflicts {merged : List Char} {inv : Inventory} {found : List String}
    (known : conflicts merged inv = .ok found) : ∃ rest, strip merged = .ok rest := by
  rw [conflicts] at known
  rcases stripped : strip merged with e | rest
  · rw [stripped] at known
    cases known
  · exact ⟨rest, rfl⟩

/-- After a synchronisation that succeeds, the configuration has one section, which is the block of
the inventory; synchronising again changes nothing; and removing the section leaves the text that was
there before, if it can keep the text that is there. It can where the synchronisation did. -/
theorem sync_manageable {old : Option String} (sound : w.disk.WellFormed)
    (read : w.disk.readOptional p = .ok old) (synced : outcome (sync p false) w = (.ok o, w')) :
    w'.disk.readText p = .ok o.content ∧
      (∃ q : Parts, q.inside = block w.inventory ∧ q.Divide o.content.toList) ∧
      outcome (sync p false) w' = (.ok (unchanged p o.content o.conflicts), w') ∧
      (∀ o' w'', outcome (removeSection p false) w' = (.ok o', w'') →
        ∃ rest, w''.disk.readText p = .ok (String.ofList rest) ∧ Restores (old.getD "").toList rest) ∧
      (o.backup.isSome = true ∨ CanSave w'.disk p →
        ∃ o' w'', outcome (removeSection p false) w' = (.ok o', w'')) := by
  obtain ⟨old', merged, found, read', isMerged, known, concluded⟩ := of_outcome_sync synced
  obtain rfl := Except.ok.inj (read.symm.trans read')
  obtain ⟨rest, stripped⟩ := strip_of_conflicts known
  obtain ⟨⟨q, inside, divide⟩, again, restores⟩ := merged_spec isMerged stripped
  have nonempty : merged ≠ [] := by
    rintro rfl
    have whole := divide.text_eq
    simp only [List.nil_eq, List.append_eq_nil_iff] at whole
    exact divide.inside.ne_nil whole.1.2
  obtain ⟨sound', sameInventory, holds, content, conflicted, canSave⟩ := conclude_spec sound
    (fun s h => readOptional_eq_some (h ▸ read)) (.inr nonempty) concluded
  have chars : o.content.toList = merged := by rw [content, String.toList_ofList]
  have removal := outcome_removeSection (w := w') holds (by rw [String.toList_ofList]; exact stripped)
  rw [content, String.toList_ofList]
  refine ⟨holds, ⟨q, inside, divide⟩, ?_, ?_, ?_⟩
  · rw [outcome_sync (readOptional_of_readText holds) (by simpa [sameInventory] using again)
      (by rw [sameInventory]; exact known)]
    rw [outcome_conclude_same rfl, conflicted]
  · intro o' w'' removed
    rw [removal] at removed
    obtain ⟨_, _, left, _⟩ := conclude_spec sound' (fun s h => by cases h; exact holds) (.inl (by simp)) removed
    exact ⟨rest, left, restores⟩
  · intro possible
    have saves : CanSave w'.disk p := possible.elim canSave id
    rw [removal]
    by_cases same : (some (String.ofList merged)).getD "" = String.ofList rest
    · rw [outcome_conclude_same same]
      exact ⟨_, _, rfl⟩
    · rw [outcome_conclude_other same]
      obtain ⟨d, written⟩ : ∃ d, outcome (replaceText p (some (String.ofList merged)) (String.ofList rest))
          w'.disk = (.ok (some (Layout.backupFile p)), d) := replaceText_succeeds sound' holds saves
      rw [written]
      exact ⟨_, _, rfl⟩

/-- A host of the inventory and a configuration that ends within a line. -/
def configuredWorld : World where
  inventory := ⟨Inventory.currentVersion, [], [⟨"web", "example.org", "root", 22, none, [], ⟨0, 0⟩, none, none, none⟩], []⟩
  disk := emptyDisk.put ["cfg"] (.file (.text "Host a") 0o644 ⟨0, 0⟩)
  installed := []
  passesNul := true
  replies := []
  usualReply := .absent
  calls := []

theorem sync_manageable_of_user_text : ∃ o w', configuredWorld.disk.WellFormed ∧
    configuredWorld.disk.readOptional "cfg" = .ok (some "Host a") ∧
      outcome (sync "cfg" false) configuredWorld = (.ok o, w') ∧
      outcome (sync "cfg" false) w' = (.ok (unchanged "cfg" o.content o.conflicts), w') ∧
      ∃ o' w'', outcome (removeSection "cfg" false) w' = (.ok o', w'') := by
  have sound : configuredWorld.disk.WellFormed := by
    refine wellFormed_emptyDisk.put ⟨[], "cfg", rfl, rfl, ?_⟩ ?_ ?_
    · exact ⟨by decide, by decide, by decide, by decide, by decide, by decide⟩
    · exact fun isDir => absurd isDir (by decide)
    · exact fun t same => by cases same
  have read : configuredWorld.disk.readOptional "cfg" = .ok (some "Host a") := by decide +kernel
  have kept : ((outcome (sync "cfg" false) configuredWorld).1.toOption.bind (·.backup)).isSome = true := by
    decide +kernel
  rcases synced : outcome (sync "cfg" false) configuredWorld with ⟨e | o, w'⟩
  · rw [synced] at kept
    cases kept
  · rw [synced] at kept
    obtain ⟨_, _, again, _, removed⟩ := sync_manageable sound read synced
    exact ⟨o, w', sound, read, rfl, again, removed (.inl kept)⟩

/-- A configuration that is new, with a directory at the path of its backup. -/
def blockedWorld : World :=
  { configuredWorld with disk := emptyDisk.put ["cfg.vault-bak"] (.directory 0o755) }

/-- The section comes into a new configuration, but cannot be removed again. -/
theorem removeSection_refused :
    blockedWorld.disk.readOptional "cfg" = .ok none ∧
      (outcome (sync "cfg" false) blockedWorld).1.isOk = true ∧
      (outcome (removeSection "cfg" false) (outcome (sync "cfg" false) blockedWorld).2).1 =
        .error (.fileAccess .isDirectory) := by decide +kernel

end Keyring.Managed

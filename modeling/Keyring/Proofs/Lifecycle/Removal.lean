import Keyring.Lifecycle.Retire
import Keyring.Proofs.Lifecycle.Directory
import Keyring.Proofs.Operation.Outcome

/-!
# What a removal does to files

The files of a removed key are deleted one after the other; what their paths lead
to is gone then, and everything else is as it was (`Deletes`). Paths that never
come to end at a link (`Unlinked`) lead to the same place for the one who looks
and for the one who deletes.
-/

namespace Keyring

namespace Disk

variable {d d' d'' : Disk} {touched : Place → Prop} {vault f : Path} {fs gs : List Path} {at_ : Place}
  {e : Entry} {name : String}

/-- The path does not end at a link, nor will it later. -/
def Unlinked (d : Disk) (f : Path) : Prop :=
  ∀ d' at_ t, Evolves d d' → d'.place false f = .ok at_ → d.entryAt at_ ≠ some (.link t)

theorem Unlinked.later (unlinked : Unlinked d f) (evolves : Evolves d d') : Unlinked d' f := by
  intro d'' at_ t evolves' led link
  rw [evolves.links] at link
  exact unlinked d'' at_ t (evolves.trans evolves') led link

/-- The path of a place leads there and nowhere else. -/
theorem unlinked_pathOf (fits : d.Fits at_) (notLink : ∀ t, d.entryAt at_ ≠ some (.link t)) :
    Unlinked d (pathOf at_) := by
  intro d' here t evolves led
  have faultless := (place_eq_ok_iff.mp led).1
  have back : d'.place false (pathOf at_) = .ok at_ :=
    place_pathOf evolves.sound (evolves.fits fits) (fun t => mt (evolves.links at_ t).mp (notLink t)) faultless
  rw [led] at back
  cases back
  exact notLink t

/-- The canonical path of a file does not end at a link. -/
theorem unlinked_canonicalOrSame (sound : d.WellFormed) (found : d.find true f = .ok (at_, e))
    (isFile : e.isFile = true) : Unlinked d (d.canonicalOrSame f) := by
  obtain ⟨led, entry⟩ := find_eq_ok_iff.mp found
  have canonical : d.canonical f = .ok (pathOf at_) := canonical_eq_ok_iff.mpr ⟨at_, e, found, rfl⟩
  rw [canonicalOrSame, canonical]
  exact unlinked_pathOf (sound.fits at_ e entry (ne_nil_of_file entry isFile)) (notLink_of_file entry isFile)

theorem Tidy.unlinked (tidy : Tidy vault d) (isName : IsName name) :
    Unlinked d ((Layout.keysDir vault).join name) := by
  intro d' at_ t evolves led
  obtain ⟨keys, ledKeys, _, rfl⟩ := tidy.place_of_join evolves isName led
  exact tidy.notLink evolves ledKeys t

/-- What a file that is taken away leaves could have become the disk with that file. -/
theorem evolves_of_erase (sound : d.WellFormed) (entry : d.entryAt at_ = some e) (isFile : e.isFile = true) :
    Evolves (d.erase at_) d := by
  have later := Later.erase sound entry isFile
  refine ⟨sound, rfl, ?_, fun here t => (later.links here t).symm, fun _ free => absurd trivial free⟩
  intro here isDir
  obtain ⟨mode, found⟩ := isDirectoryAt_iff.mp isDir
  rw [entryAt_erase (ne_nil_of_file entry isFile)] at found
  split at found
  · cases found
  · exact isDirectoryAt_of_entryAt found

/-- Some of the files that the paths lead to have gone, and nothing else has happened. -/
structure Deletes (fs : List Path) (d d' : Disk) : Prop where
  later : Later (fun at_ => ∃ f ∈ fs, d.place true f = .ok at_) d d'
  back : Evolves d' d
  kept : ∀ at_ e, d'.entryAt at_ = some e → d.entryAt at_ = some e

namespace Deletes

theorem refl (sound : d.WellFormed) : Deletes fs d d := ⟨.refl sound, .refl sound, fun _ _ entry => entry⟩

theorem trans (first : Deletes fs d d') (second : Deletes gs d' d'') : Deletes (fs ++ gs) d d'' where
  later := by
    refine (first.later.mono ?_).trans (second.later.mono ?_)
    · rintro at_ ⟨f, member, led⟩
      exact ⟨f, List.mem_append_left _ member, led⟩
    · rintro at_ ⟨f, member, led⟩
      exact ⟨f, List.mem_append_right _ member, first.back.place led⟩
  back := second.back.trans first.back
  kept := fun at_ e entry => first.kept at_ e (second.kept at_ e entry)

theorem tidy (deletes : Deletes fs d d') (tidy : Tidy vault d) : Tidy vault d' := by
  refine tidy.later deletes.later.evolves fun keys name e entry _ => .inl ?_
  rw [deletes.kept _ e entry]
  exact Option.some_ne_none e

end Deletes

end Disk

namespace Lifecycle

open Disk

variable {d d' : Disk} {vault f : Path} {fs : List Path} {at_ : Place}

/-- A file is deleted, or there is nothing to delete, or it cannot be done. -/
theorem outcome_deleteFile (sound : d.WellFormed) (unlinked : Unlinked d f) :
    (∀ at_, d.place true f = .ok at_ → d.entryAt at_ = none) ∧ outcome (deleteFile f) d = (.ok (), d) ∨
      (∃ at_ e, d.place true f = .ok at_ ∧ d.entryAt at_ = some e ∧ e.isFile = true ∧
        outcome (deleteFile f) d = (.ok (), d.erase at_)) ∨
      ∃ e, outcome (deleteFile f) d = (.error e, d) := by
  rw [deleteFile, outcome_bind, outcome_get]
  dsimp only
  split
  · rw [removeFile, outcome_bind, Disk.outcome_ask]
    rcases found : d.find false f with e | ⟨at_, e⟩
    · exact .inr (.inr ⟨e, rfl⟩)
    · obtain ⟨led, entry⟩ := find_eq_ok_iff.mp found
      have notLink : ∀ t, d.entryAt at_ ≠ some (.link t) := fun t => unlinked d at_ t (.refl sound) led
      cases e with
      | directory mode => exact .inr (.inr ⟨_, rfl⟩)
      | link t => exact absurd entry (notLink t)
      | file content mode modified =>
        exact .inr (.inl ⟨at_, _, place_true_of_notLink led notLink, entry, rfl, rfl⟩)
  · rename_i missing
    refine .inl ⟨fun at_ led => ?_, rfl⟩
    rcases entry : d.entryAt at_ with _ | e
    · rfl
    · exact absurd (exists_iff.mpr ⟨at_, e, led, entry⟩) missing

theorem deletes_deleteFile (sound : d.WellFormed) (unlinked : Unlinked d f) :
    Deletes [f] d (outcome (deleteFile f) d).2 := by
  obtain ⟨_, run⟩ | ⟨at_, e, led, entry, isFile, run⟩ | ⟨e, run⟩ := outcome_deleteFile sound unlinked
  · rw [run]
    exact .refl sound
  · rw [run]
    have later := Later.erase sound entry isFile
    refine ⟨later.mono ?_, evolves_of_erase sound entry isFile, fun here e' found => ?_⟩
    · rintro here rfl
      exact ⟨f, by simp, led⟩
    · rw [entryAt_erase (ne_nil_of_file entry isFile)] at found
      split at found
      · cases found
      · exact found
  · rw [run]
    exact .refl sound

theorem deletes_deleteFiles (sound : d.WellFormed) (unlinked : ∀ f ∈ fs, Unlinked d f) :
    Deletes fs d (outcome (fs.forM deleteFile) d).2 := by
  induction fs generalizing d with
  | nil => exact .refl sound
  | cons f fs ih =>
    have first := deletes_deleteFile sound (unlinked f (by simp))
    show Deletes ([f] ++ fs) d (outcome (deleteFile f >>= fun _ => fs.forM deleteFile) d).2
    rw [outcome_bind]
    rcases run : outcome (deleteFile f) d with ⟨e | u, d₁⟩
    · rw [run] at first
      exact first.trans (.refl first.later.sound)
    · rw [run] at first
      refine first.trans (ih first.later.sound fun g member => ?_)
      exact (unlinked g (List.mem_cons_of_mem _ member)).later first.later.evolves

/-- Where all could be deleted, nothing is left of it. -/
theorem gone_of_deleteFiles (sound : d.WellFormed) (unlinked : ∀ f ∈ fs, Unlinked d f)
    (done : outcome (fs.forM deleteFile) d = (.ok (), d')) (member : f ∈ fs)
    (led : d.place true f = .ok at_) : d'.entryAt at_ = none := by
  induction fs generalizing d with
  | nil => cases member
  | cons g fs ih =>
    obtain ⟨_, d₁, run, rest⟩ := of_outcome_bind_ok (x := deleteFile g) (f := fun _ => fs.forM deleteFile) done
    have first := deletes_deleteFile sound (unlinked g (by simp))
    rw [run] at first
    have unlinked' : ∀ f ∈ fs, Unlinked d₁ f :=
      fun f member => (unlinked f (List.mem_cons_of_mem _ member)).later first.later.evolves
    rcases List.mem_cons.mp member with rfl | member
    · have gone : d₁.entryAt at_ = none := by
        obtain ⟨nothing, same⟩ | ⟨here, e, led', entry, isFile, same⟩ | ⟨e, failed⟩ :=
          outcome_deleteFile sound (unlinked f (by simp))
        · rw [run] at same
          obtain rfl := (Prod.mk.inj same).2
          exact nothing at_ led
        · rw [led] at led'
          cases led'
          rw [run] at same
          obtain rfl := (Prod.mk.inj same).2
          rw [entryAt_erase (ne_nil_of_file entry isFile), if_pos rfl]
        · rw [run] at failed
          cases (Prod.mk.inj failed).1
      have later := deletes_deleteFiles first.later.sound unlinked'
      rw [rest] at later
      rcases left : d'.entryAt at_ with _ | e
      · rfl
      · rw [later.kept at_ e left] at gone
        cases gone
    · exact ih first.later.sound unlinked' rest member (first.later.place led)

/-- The paths that a removal means to delete; none where it is refused. -/
def doomed (vault : Path) (w : World) (name : String) (force deleteFiles : Bool) : List Path :=
  match w.inventory.removeKey name force with
  | .ok (k, _) =>
    if deleteFiles then filesToDelete (w.disk.canonicalOrSame (Layout.keysDir vault)) k else []
  | .error _ => []

/-- A removal deletes files, and does nothing else to the disk. -/
theorem removeKey_files {name : String} {force deleteFiles : Bool} {w : World}
    (sound : w.disk.WellFormed) (unlinked : ∀ f ∈ doomed vault w name force deleteFiles, Unlinked w.disk f) :
    Deletes (doomed vault w name force deleteFiles) w.disk
        (outcome (removeKey vault name force deleteFiles) w).2.disk ∧
      ∀ k w', outcome (removeKey vault name force deleteFiles) w = (.ok k, w') →
        ∀ f ∈ doomed vault w name force deleteFiles, ∀ at_, w.disk.place true f = .ok at_ →
          w'.disk.entryAt at_ = none := by
  unfold removeKey
  rw [outcome_bind, Op.outcome_edit_made (InventoryM.atomic_removeKey _ _), ← Inventory.removeKey]
  rcases removed : w.inventory.removeKey name force with e | ⟨k, inv'⟩
  · exact ⟨.refl sound, fun k w' failed => by cases failed⟩
  simp only [doomed, removed] at unlinked ⊢
  cases deleteFiles with
  | false => exact ⟨.refl sound, fun k w' _ f member => by cases member⟩
  | true =>
    simp only [if_true] at unlinked ⊢
    rw [outcome_bind, Op.outcome_disk]
    dsimp only
    generalize filesToDelete (w.disk.canonicalOrSame (Layout.keysDir vault)) k = fs at unlinked ⊢
    have deletes := deletes_deleteFiles sound unlinked
    rw [outcome_bind, Op.outcome_onDisk]
    dsimp only
    rcases run : outcome (fs.forM deleteFile) w.disk with ⟨e | u, d'⟩
    · rw [run] at deletes
      exact ⟨deletes, fun k w' failed => by cases failed⟩
    · rw [run] at deletes
      refine ⟨deletes, ?_⟩
      rintro k w' ⟨⟩ f member at_ led
      exact gone_of_deleteFiles sound unlinked run member led

end Lifecycle

end Keyring

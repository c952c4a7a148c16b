import Keyring.Proofs.Disk.Place

/-!
# Disks from which entries have gone

On a disk with fewer entries a path that still leads to one leads where it led before
(`Fewer.find`), whatever links there are. So the entry that a path names is gone for good when it
is erased: the path leads to nothing then (`exists_erase`).
-/

namespace Keyring.Disk

variable {d d' d'' : Disk} {through : Bool} {at_ there goal : Place} {p : Path} {e : Entry} {links left : Nat}
  {xs : List String}

/-- What is on the first disk is on the second one, too. -/
structure Fewer (d' d : Disk) : Prop where
  workingPlace : d'.workingPlace = d.workingPlace
  entryAt : ∀ at_ e, d'.entryAt at_ = some e → d.entryAt at_ = some e

namespace Fewer

theorem isDirectoryAt (fewer : Fewer d' d) (isDir : d'.isDirectoryAt at_ = true) : d.isDirectoryAt at_ = true := by
  obtain ⟨mode, entry⟩ := isDirectoryAt_iff.mp isDir
  exact isDirectoryAt_of_entryAt (fewer.entryAt at_ _ entry)

/-- Names that lead to something lead there with more around it. -/
theorem leads (fewer : Fewer d' d) (leads : Leads d' through links at_ xs left goal)
    (some_ : d'.entryAt goal ≠ none) : Leads d through links at_ xs left goal := by
  induction leads with
  | done => exact .done
  | void isDir void _ ih => exact .void (fewer.isDirectoryAt isDir) void (ih some_)
  | up isDir _ ih => exact .up (fewer.isDirectoryAt isDir) (ih some_)
  | @down links left at_ goal name rest isDir isStep notLink leads ih =>
    -- the names go on from there, or that is the goal: in either case it is an entry still, and no link
    have here : d'.entryAt (at_ ++ [name]) ≠ none := by
      by_cases last : rest = []
      · subst last
        cases leads
        exact some_
      · obtain ⟨mode, entry⟩ := isDirectoryAt_iff.mp (leads.isDirectoryAt_start last)
        simp [entry]
    refine .down (fewer.isDirectoryAt isDir) isStep (fun t link => ?_) (ih some_)
    obtain ⟨e, entry⟩ := Option.ne_none_iff_exists'.mp here
    obtain rfl := Option.some.inj ((fewer.entryAt _ e entry).symm.trans link)
    exact notLink t entry
  | halt isDir isStep entry stops => exact .halt (fewer.isDirectoryAt isDir) isStep (fewer.entryAt _ _ entry) stops
  | follow isDir isStep entry goesOn nonempty _ ih =>
    exact .follow (fewer.isDirectoryAt isDir) isStep (fewer.entryAt _ _ entry) goesOn nonempty (ih some_)

theorem find (fewer : Fewer d' d) (found : d'.find through p = .ok (at_, e)) : d.find through p = .ok (at_, e) := by
  obtain ⟨led, entry⟩ := find_eq_ok_iff.mp found
  obtain ⟨faultless, left, leads⟩ := place_eq_ok_iff.mp led
  have leads' := fewer.leads leads (by simp [entry])
  rw [fewer.workingPlace] at leads'
  exact find_eq_ok_iff.mpr ⟨place_eq_ok_iff.mpr ⟨faultless, left, leads'⟩, fewer.entryAt at_ e entry⟩

theorem exists_ (fewer : Fewer d' d) (there : d'.exists_ p = true) : d.exists_ p = true := by
  obtain ⟨at_, e, led, entry⟩ := exists_iff.mp there
  obtain ⟨led', entry'⟩ := find_eq_ok_iff.mp (fewer.find (find_eq_ok_iff.mpr ⟨led, entry⟩))
  exact exists_iff.mpr ⟨at_, e, led', entry'⟩

end Fewer

theorem fewer_erase (notRoot : at_ ≠ []) : Fewer (d.erase at_) d := by
  refine ⟨rfl, fun there e entry => ?_⟩
  rw [entryAt_erase notRoot] at entry
  exact (Option.ite_none_left_eq_some.mp entry).2

/-- A path that leads to something names an entry: that, or a link on the way. -/
theorem find_false_of_exists (there : d.exists_ p = true) : ∃ at_ e, d.find false p = .ok (at_, e) := by
  obtain ⟨goal, e, led, entry⟩ := exists_iff.mp there
  obtain ⟨here, stopped, rfl | ⟨t, link⟩⟩ := place_false_of_true led
  · exact ⟨here, e, find_eq_ok_iff.mpr ⟨stopped, entry⟩⟩
  · exact ⟨here, .link t, find_eq_ok_iff.mpr ⟨stopped, link⟩⟩

/-- Without the entry that it names a path leads to nothing. -/
theorem exists_erase (found : d.find false p = .ok (at_, e)) (notRoot : at_ ≠ []) :
    (d.erase at_).exists_ p = false := by
  rw [Bool.eq_false_iff]
  intro there
  obtain ⟨here, e', found'⟩ := find_false_of_exists there
  obtain ⟨rfl, -⟩ := Prod.mk.inj (Except.ok.inj ((fewer_erase notRoot).find found' |>.symm.trans found))
  have gone := (find_eq_ok_iff.mp found').2
  rw [entryAt_erase notRoot, if_pos rfl] at gone
  cases gone

end Keyring.Disk

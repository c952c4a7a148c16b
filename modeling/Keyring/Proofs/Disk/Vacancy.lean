import Keyring.Proofs.Disk.Canonical
import Keyring.Proofs.Disk.Files

/-!
# Places that lead on to nothing

A place is a dead end if no path that goes on from it comes to a directory: a file is there, or nothing, or a link
to one of them. It is vacant if no path comes to anything: nothing is there, or a link that leads nowhere. A file
can come to a dead end and no path is cut off by it that does not end there (`place_of_deadEnd`). A path stops at
a dead end if it leads to a file (`deadEnd_of_file`), and at a vacant place if it comes to nothing
(`vacant_of_missing`). The latter does not hold of a link that was not followed because a path has too many of
them: on a path with fewer it may lead somewhere.
-/

namespace Keyring.Disk

variable {d d' : Disk} {through : Bool} {links left : Nat} {at_ goal : Place} {xs : List String} {p : Path}
  {e : Entry}

/-- Names lead to the same place where more links may be followed. -/
theorem Leads.more (leads : Leads d through links at_ xs left goal) (n : Nat) :
    Leads d through (links + n) at_ xs (left + n) goal := by
  induction leads with
  | done => exact .done
  | void isDir void _ ih => exact .void isDir void ih
  | up isDir _ ih => exact .up isDir ih
  | down isDir isStep free _ ih => exact .down isDir isStep free ih
  | halt isDir isStep entry stops => exact .halt isDir isStep entry stops
  | @follow links left _ _ _ _ _ isDir isStep entry goesOn nonempty _ ih =>
    rw [Nat.add_right_comm]
    exact .follow isDir isStep entry goesOn nonempty ih

/-- Where names lead a walk comes too, unless the steps or the links run out. -/
theorem Leads.walk_again (leads : Leads d through links at_ xs left goal) (fuel links' : Nat) :
    d.walk through fuel links' at_ xs = .ok goal ∨ d.walk through fuel links' at_ xs = .error .tooManyLinks := by
  induction leads generalizing fuel links' with
  | done =>
    rcases fuel with _ | fuel
    · exact .inr rfl
    · exact .inl rfl
  | void isDir void _ ih =>
    rcases fuel with _ | fuel
    · exact .inr rfl
    · rw [walk_void isDir void]
      exact ih fuel links'
  | up isDir _ ih =>
    rcases fuel with _ | fuel
    · exact .inr rfl
    · rw [walk_up isDir]
      exact ih fuel links'
  | down isDir isStep free _ ih =>
    rcases fuel with _ | fuel
    · exact .inr rfl
    · rw [walk_down isDir isStep free]
      exact ih fuel links'
  | halt isDir isStep entry stops =>
    rcases fuel with _ | fuel
    · exact .inr rfl
    · exact .inl (walk_halt isDir isStep entry stops)
  | follow isDir isStep entry goesOn nonempty _ ih =>
    rcases fuel with _ | fuel
    · exact .inr rfl
    rcases links' with _ | links'
    · exact .inr (walk_tooManyLinks isDir isStep entry goesOn)
    · rw [walk_follow isDir isStep entry goesOn nonempty]
      exact ih fuel links'

/-- Names that stop at what is no directory end with its name, and those before lead to the directory that it
is in. -/
theorem Leads.last_name (sound : d.WellFormed) (stops : Leads d false links at_ xs left goal)
    (start : d.isDirectoryAt at_ = true) (notDir : d.isDirectoryAt goal = false) :
    ∃ front parent name, xs = front ++ [name] ∧ goal = parent ++ [name] ∧
      Leads d true links at_ front left parent := by
  rcases List.eq_nil_or_concat xs with rfl | ⟨front, name, rfl⟩
  · cases stops
    rw [start] at notDir
    cases notDir
  · rw [List.concat_eq_append] at stops ⊢
    obtain ⟨k, mid, first, last⟩ := (leads_append_iff (by simp)).mp stops
    refine ⟨front, mid, name, rfl, ?_⟩
    cases last with
    | void isDir _ last =>
      cases last
      rw [isDir] at notDir
      cases notDir
    | up isDir last =>
      cases last
      rw [sound.isDirectoryAt_dropLast isDir] at notDir
      cases notDir
    | down _ _ _ last =>
      cases last
      exact ⟨rfl, first⟩
    | halt => exact ⟨rfl, first⟩
    | follow _ _ _ goesOn => exact absurd goesOn (by simp)

/-- What names lead to that go on from a place by its name, however many links may be followed. -/
def OnwardTo (d : Disk) (at_ goal : Place) : Prop :=
  ∃ links parent name left, parent ++ [name] = at_ ∧ Leads d true links parent [name] left goal

/-- No names that go on from the place lead to a directory. -/
def DeadEnd (d : Disk) (at_ : Place) : Prop := ∀ goal, OnwardTo d at_ goal → d.isDirectoryAt goal = false

/-- No names that go on from the place come to anything. -/
def Vacant (d : Disk) (at_ : Place) : Prop := ∀ goal, OnwardTo d at_ goal → d.entryAt goal = none

theorem Vacant.deadEnd (vacant : Vacant d at_) : DeadEnd d at_ := by
  intro goal onward
  rw [isDirectoryAt, vacant goal onward]

theorem Vacant.link (vacant : Vacant d at_) (sound : d.WellFormed) (notRoot : at_ ≠ [])
    (entry : d.entryAt at_ = some e) : ∃ t, e = .link t := by
  by_contra notLink
  have free : ∀ t, d.entryAt at_ ≠ some (.link t) := by
    intro t link
    exact notLink ⟨t, Option.some.inj (entry.symm.trans link)⟩
  obtain ⟨parent, name, rfl, isDir, isName⟩ := (sound.fits at_ e entry notRoot).named
  rw [vacant _ ⟨0, parent, name, 0, rfl, .down isDir isName.isStep free .done⟩] at entry
  cases entry

/-- Where a path stops that does not lead to a directory, names go on to where the path leads, unless it has too
many links. -/
theorem place_of_onwardTo (sound : d.WellFormed) (led : d.place false p = .ok at_)
    (notDir : d.isDirectoryAt at_ = false) (onward : OnwardTo d at_ goal) :
    d.place true p = .ok goal ∨ d.place true p = .error .tooManyLinks := by
  obtain ⟨faultless, left, stops⟩ := place_eq_ok_iff.mp led
  have start := stops.isDirectoryAt_start (Path.names_ne_nil p)
  obtain ⟨front, parent, name, namesAre, rfl, before⟩ := stops.last_name sound start notDir
  obtain ⟨l, parent', name', k, here, last⟩ := onward
  obtain ⟨rfl, same⟩ := List.append_inj' here rfl
  obtain rfl := (List.cons_eq_cons.mp same).1
  have whole : Leads d true (mostLinks + l) (startOf d.workingPlace p) (Path.names p) (k + left) goal := by
    rw [namesAre]
    refine (leads_append_iff (by simp)).mpr ⟨_, parent', before.more l, ?_⟩
    rw [Nat.add_comm left l]
    exact last.more left
  have placed : d.place true p = d.walk true (d.walkFuel p) mostLinks (startOf d.workingPlace p) (Path.names p) := by
    rw [place, faultless]
    rfl
  rw [placed]
  exact whole.walk_again _ _

/-- A path that comes to nothing stops at a vacant place, unless it has too many links. -/
theorem vacant_of_missing {why : FileError} (sound : d.WellFormed) (led : d.place false p = .ok at_)
    (missing : d.find true p = .error why) (few : why ≠ .tooManyLinks) : Vacant d at_ := by
  have notDir : d.isDirectoryAt at_ = false := by
    rw [Bool.eq_false_iff]
    intro isDir
    obtain ⟨mode, entry⟩ := isDirectoryAt_iff.mp isDir
    have notLink : ∀ t, d.entryAt at_ ≠ some (.link t) := by
      rw [entry]
      nofun
    rw [find_eq_ok_iff.mpr ⟨place_true_of_notLink led notLink, entry⟩] at missing
    cases missing
  intro goal onward
  rw [find] at missing
  rcases place_of_onwardTo sound led notDir onward with placed | placed
  · rw [placed] at missing
    cases entry : d.entryAt goal with
    | none => rfl
    | some e =>
      simp only [bind, Except.bind, entry] at missing
      cases missing
  · rw [placed] at missing
    exact absurd (Except.error.inj missing).symm few

/-- A path that leads to a file stops at a dead end. -/
theorem deadEnd_of_file {here : Place} (sound : d.WellFormed) (led : d.place false p = .ok at_)
    (found : d.find true p = .ok (here, e)) (isFile : e.isFile = true) :
    d.isDirectoryAt at_ = false ∧ DeadEnd d at_ := by
  obtain ⟨through, entry⟩ := find_eq_ok_iff.mp found
  have notDirHere := isDirectoryAt_of_file entry isFile
  obtain ⟨stop, led', reached⟩ := place_false_of_true through
  obtain rfl := Except.ok.inj (led'.symm.trans led)
  have notDir : d.isDirectoryAt stop = false := by
    rcases reached with rfl | ⟨t, link⟩
    · exact notDirHere
    · rw [isDirectoryAt, link]
  refine ⟨notDir, fun goal onward => ?_⟩
  rcases place_of_onwardTo sound led notDir onward with placed | placed <;> rw [through] at placed
  · rwa [← Except.ok.inj placed]
  · cases placed

/-! ## Files that come there -/

/-- When a file has come to a dead end names lead where they led, unless they went on from there. -/
theorem Leads.past (deadEnd : DeadEnd d at_) (differs : Differs at_ d d') {here : Place}
    (leads : Leads d through links here xs left goal) (beside : through = true → ¬OnwardTo d at_ goal) :
    Leads d' through links here xs left goal := by
  obtain ⟨e, isThere, isFile⟩ := differs.isFile
  have notLink := notLink_of_file isThere isFile
  -- the place is not passed, nor is it the end of a path that goes through every link
  have ends : ∀ {links left here goal name rest}, here ++ [name] = at_ →
      Leads d through links here (name :: rest) left goal → (through = true → ¬OnwardTo d at_ goal) →
      rest = [] ∧ through = false := by
    intro links left here goal name rest same leads beside
    by_cases alone : rest = []
    · refine ⟨alone, ?_⟩
      rw [Bool.eq_false_iff]
      rintro rfl
      rw [alone] at leads
      exact beside rfl ⟨links, here, name, left, same, leads⟩
    · have leads : Leads d through links here ([name] ++ rest) left goal := leads
      obtain ⟨k, mid, first, further⟩ := (leads_append_iff alone).mp leads
      have isDir := further.isDirectoryAt_start alone
      rw [deadEnd mid ⟨links, here, name, k, same, first⟩] at isDir
      cases isDir
  induction leads with
  | done => exact .done
  | void isDir void _ ih => exact .void (differs.isDirectoryAt isDir) void (ih beside)
  | up isDir _ ih => exact .up (differs.isDirectoryAt isDir) (ih beside)
  | @down links left here goal name rest isDir isStep free leads ih =>
    by_cases same : here ++ [name] = at_
    · obtain ⟨rfl, rfl⟩ := ends same (.down isDir isStep free leads) beside
      cases leads
      exact .down (differs.isDirectoryAt isDir) isStep (by rwa [same]) .done
    · exact .down (differs.isDirectoryAt isDir) isStep (by rwa [differs.elsewhere _ same]) (ih beside)
  | @halt links here name target isDir isStep entry stops =>
    by_cases same : here ++ [name] = at_
    · exact .down (differs.isDirectoryAt isDir) isStep (by rwa [same]) .done
    · exact .halt (differs.isDirectoryAt isDir) isStep ((differs.elsewhere _ same).trans entry) stops
  | @follow links left here goal name target rest isDir isStep entry goesOn nonempty leads ih =>
    by_cases same : here ++ [name] = at_
    · obtain ⟨rfl, rfl⟩ := ends same (.follow isDir isStep entry goesOn nonempty leads) beside
      exact absurd goesOn (by simp)
    · have isThere := (differs.elsewhere _ same).trans entry
      exact .follow (differs.isDirectoryAt isDir) isStep isThere goesOn nonempty (ih beside)

theorem place_of_deadEnd (deadEnd : DeadEnd d at_) (differs : Differs at_ d d')
    (led : d.place through p = .ok goal) (beside : through = true → ¬OnwardTo d at_ goal) :
    d'.place through p = .ok goal := by
  obtain ⟨faultless, left, leads⟩ := place_eq_ok_iff.mp led
  rw [place_eq_ok_iff, differs.workingPlace]
  exact ⟨faultless, left, leads.past deadEnd differs beside⟩

/-- A file at a vacant place changes no path that led to something, nor where one stops. -/
theorem place_of_vacant (vacant : Vacant d at_) (differs : Differs at_ d d')
    (led : d.place through p = .ok goal) (there : through = true → d.entryAt goal ≠ none) :
    d'.place through p = .ok goal :=
  place_of_deadEnd vacant.deadEnd differs led fun always onward => there always (vacant goal onward)

/-- When a file has come somewhere names lead where they led, or names that go on after them are cut off. -/
theorem Leads.past_or_cut (differs : Differs at_ d d') {here : Place} (leads : Leads d true links here xs left goal) :
    Leads d' true links here xs left goal ∨ ∀ fuel links' more, more ≠ [] →
      d'.walk true fuel links' here (xs ++ more) = .error .notDirectory ∨
        d'.walk true fuel links' here (xs ++ more) = .error .tooManyLinks := by
  obtain ⟨e, isThere, isFile⟩ := differs.isFile
  have notLink := notLink_of_file isThere isFile
  have stuck (fuel links' : Nat) {more : List String} (some_ : more ≠ []) :
      d'.walk true fuel links' at_ more = .error .notDirectory ∨
        d'.walk true fuel links' at_ more = .error .tooManyLinks := by
    rcases fuel with _ | fuel
    · exact .inr rfl
    obtain ⟨name, rest, rfl⟩ := List.exists_cons_of_ne_nil some_
    refine .inl ?_
    rw [walk, isDirectoryAt_of_file isThere isFile, isThere]
    rfl
  induction leads with
  | done => exact .inl .done
  | halt _ _ _ stops => cases stops
  | void isDir void _ ih =>
    have isDir := differs.isDirectoryAt isDir
    refine ih.imp (.void isDir void) fun cut fuel links' more some_ => ?_
    rcases fuel with _ | fuel
    · exact .inr rfl
    · rw [List.cons_append, walk_void isDir void]
      exact cut fuel links' more some_
  | up isDir _ ih =>
    have isDir := differs.isDirectoryAt isDir
    refine ih.imp (.up isDir) fun cut fuel links' more some_ => ?_
    rcases fuel with _ | fuel
    · exact .inr rfl
    · rw [List.cons_append, walk_up isDir]
      exact cut fuel links' more some_
  | @down links left here goal name rest isDir isStep free leads ih =>
    have isDir := differs.isDirectoryAt isDir
    have free' : ∀ t, d'.entryAt (here ++ [name]) ≠ some (.link t) := by
      by_cases same : here ++ [name] = at_
      · rwa [same]
      · rwa [differs.elsewhere _ same]
    refine ih.imp (.down isDir isStep free') fun cut fuel links' more some_ => ?_
    rcases fuel with _ | fuel
    · exact .inr rfl
    · rw [List.cons_append, walk_down isDir isStep free']
      exact cut fuel links' more some_
  | @follow links left here goal name target rest isDir isStep entry goesOn nonempty leads ih =>
    have isDir := differs.isDirectoryAt isDir
    by_cases same : here ++ [name] = at_
    · refine .inr fun fuel links' more some_ => ?_
      rcases fuel with _ | fuel
      · exact .inr rfl
      · rw [List.cons_append, walk_down isDir isStep (by rwa [same]), same]
        exact stuck fuel links' (by simp [some_])
    · have entry' := (differs.elsewhere _ same).trans entry
      refine ih.imp (.follow isDir isStep entry' goesOn nonempty) fun cut fuel links' more some_ => ?_
      rcases fuel with _ | fuel
      · exact .inr rfl
      rcases links' with _ | links'
      · exact .inr (walk_tooManyLinks isDir isStep entry' (.inr rfl))
      · rw [List.cons_append, walk_follow isDir isStep entry' (.inr rfl) nonempty, ← List.append_assoc]
        exact cut fuel links' more some_

/-- A path that comes to nothing after a file has come somewhere was not cut off, so it stops where it stopped. -/
theorem place_of_missing (differs : Differs at_ d d') (led : d.place false p = .ok goal)
    (missing : d'.find true p = .error .notFound) : d'.place false p = .ok goal := by
  obtain ⟨faultless, left, stops⟩ := place_eq_ok_iff.mp led
  obtain ⟨e, isThere, isFile⟩ := differs.isFile
  have notLink := notLink_of_file isThere isFile
  obtain ⟨front, name, namesAre⟩ : ∃ front name, Path.names p = front ++ [name] := by
    rcases List.eq_nil_or_concat (Path.names p) with none_ | ⟨front, name, are⟩
    · exact absurd none_ (Path.names_ne_nil p)
    · exact ⟨front, name, by rw [are, List.concat_eq_append]⟩
  rw [namesAre] at stops
  obtain ⟨k, mid, first, last⟩ := (leads_append_iff (by simp)).mp stops
  rcases first.past_or_cut differs with first | cut
  · rw [place_eq_ok_iff, differs.workingPlace, namesAre]
    refine ⟨faultless, left, (leads_append_iff (by simp)).mpr ⟨k, mid, first, ?_⟩⟩
    cases last with
    | void isDir void last =>
      cases last
      exact .void (differs.isDirectoryAt isDir) void .done
    | up isDir last =>
      cases last
      exact .up (differs.isDirectoryAt isDir) .done
    | down isDir isStep free last =>
      cases last
      refine .down (differs.isDirectoryAt isDir) isStep ?_ .done
      by_cases same : mid ++ [name] = at_
      · rwa [same]
      · rwa [differs.elsewhere _ same]
    | halt isDir isStep entry =>
      by_cases same : mid ++ [name] = at_
      · exact .down (differs.isDirectoryAt isDir) isStep (by rwa [same]) .done
      · exact .halt (differs.isDirectoryAt isDir) isStep ((differs.elsewhere _ same).trans entry) rfl
    | follow _ _ _ goesOn => exact absurd goesOn (by simp)
  · have placed : d'.place true p = d'.walk true (d'.walkFuel p) mostLinks (startOf d.workingPlace p)
        (front ++ [name]) := by
      rw [place, faultless, differs.workingPlace, ← namesAre]
      rfl
    rw [find, placed] at missing
    rcases cut (d'.walkFuel p) mostLinks [name] (by simp) with stopped | stopped <;> rw [stopped] at missing <;>
      cases missing

/-- A file that a path leads to can be written anew, whatever links are on the way. -/
theorem writeWholeWithMode_over {content : Content} {mode : Nat} {here : Place} (sound : d.WellFormed)
    (found : d.find true p = .ok (here, e)) (isFile : e.isFile = true) :
    ∃ d', outcome (writeWholeWithMode p content mode) d = (.ok (), d') := by
  have named := checkFileName_of_file sound found isFile
  obtain ⟨at_, led, -⟩ := place_false_of_true (find_eq_ok_iff.mp found).1
  obtain ⟨notDir, deadEnd⟩ := deadEnd_of_file sound led found isFile
  have differs : Differs at_ d (d.put at_ (d.newFile content privateFileMode)) :=
    .put (ne_nil_of_notDirectory notDir) notDir (isFile_newFile d content privateFileMode)
  exact writeWholeWithMode_of_stops sound (parent_isDirectory named led) named led notDir
    (place_of_deadEnd deadEnd differs led nofun)

/-- So it can without permissions of its own, and is found there. -/
theorem writeWhole_over {content : Content} {here : Place} (sound : d.WellFormed)
    (found : d.find true p = .ok (here, e)) (isFile : e.isFile = true) :
    ∃ d' at_ modified, outcome (writeWhole p content) d = (.ok (), d') ∧
      d'.find true p = .ok (at_, .file content privateFileMode modified) := by
  have again : ∃ d', outcome (writeWholeWithMode p content privateFileMode) d = (.ok (), d') :=
    writeWholeWithMode_over sound found isFile
  obtain ⟨d', run⟩ := again
  obtain ⟨_, d₂, written, changed⟩ := of_outcome_bind_ok run
  obtain ⟨d₁, paves, ⟨d₂', run', replaces⟩ | ⟨reason, failed⟩⟩ := outcome_writeWhole sound p content
  · obtain rfl : d₂' = d₂ := (Prod.mk.inj (run'.symm.trans written)).2
    rw [outcome_setMode (replaces.sound paves.grows.sound)] at changed
    cases led : d₂'.find true p with
    | error reason =>
      rw [led] at changed
      cases changed
    | ok there =>
      obtain ⟨at_, e'⟩ := there
      obtain ⟨rfl, -⟩ := replaces.find led
      exact ⟨d₂', at_, d₁.clock, written, led⟩
  · rw [failed] at written
    cases written

end Keyring.Disk

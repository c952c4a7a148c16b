import Keyring.Proofs.Disk.Walk
import Mathlib.Data.List.Induction

/-!
# Places that paths lead to

Where a walk can end, that a path leads to the same place in every later state
of a disk (`Later.place`), and the paths that have no link to follow.
-/

namespace Keyring.Disk

variable {d d' : Disk} {through : Bool} {links left : Nat} {at_ goal : Place} {xs ys : List String}
  {name target : String} {p : Path}

/-! ## Where a walk can end -/

theorem WellFormed.fits_of_isDirectoryAt (sound : d.WellFormed) (isDir : d.isDirectoryAt at_ = true) :
    at_ = [] ∨ d.Fits at_ := by
  obtain ⟨mode, found⟩ := isDirectoryAt_iff.mp isDir
  by_cases root : at_ = []
  · exact .inl root
  · exact .inr (sound.fits at_ _ found root)

/-- A text that can name an entry: without slash and NUL. -/
def Clean (name : String) : Prop := '/' ∉ name.toList ∧ '\x00' ∉ name.toList

theorem IsStep.isName (isStep : IsStep name) (clean : Clean name) : IsName name where
  some := fun h => isStep.notVoid (.inl h)
  notHere := fun h => isStep.notVoid (.inr h)
  notUp := isStep.notUp
  short := isStep.short
  plain := clean.1
  noNul := clean.2

theorem IsName.isStep (isName : IsName name) : IsStep name :=
  ⟨fun void => void.elim isName.some isName.notHere, isName.notUp, isName.short⟩

theorem clean_of_mem_names (noNul : '\x00' ∉ p.toList) (member : name ∈ Path.names p) : Clean name :=
  ⟨(Path.mem_of_mem_names member).1, fun nul => noNul ((Path.mem_of_mem_names member).2 _ nul)⟩

theorem Leads.fits (sound : d.WellFormed) (leads : Leads d through links at_ xs left goal)
    (clean : ∀ x ∈ xs, Clean x) (start : at_ = [] ∨ d.Fits at_) : goal = [] ∨ d.Fits goal := by
  induction leads with
  | done => exact start
  | void _ _ _ ih => exact ih (fun x member => clean x (List.mem_cons_of_mem _ member)) start
  | up isDir _ ih =>
    refine ih (fun x member => clean x (List.mem_cons_of_mem _ member)) ?_
    exact sound.fits_of_isDirectoryAt (sound.isDirectoryAt_dropLast isDir)
  | down isDir isStep _ _ ih =>
    refine ih (fun x member => clean x (List.mem_cons_of_mem _ member)) (.inr ?_)
    exact ⟨_, _, rfl, isDir, isStep.isName (clean _ List.mem_cons_self)⟩
  | halt isDir isStep =>
    exact .inr ⟨_, _, rfl, isDir, isStep.isName (clean _ List.mem_cons_self)⟩
  | follow _ _ entry _ _ _ ih =>
    refine ih ?_ ?_
    · intro x member
      rcases List.mem_append.mp member with inTarget | inRest
      · exact clean_of_mem_names (sound.targets _ _ entry) inTarget
      · exact clean x (List.mem_cons_of_mem _ inRest)
    · rw [startOf]
      split
      · exact .inl rfl
      · exact start

/-- A walk through every link does not end at one. -/
theorem Leads.goal_notLink (sound : d.WellFormed) (leads : Leads d through links at_ xs left goal)
    (always : through = true) (start : ∀ t, d.entryAt at_ ≠ some (.link t)) :
    ∀ t, d.entryAt goal ≠ some (.link t) := by
  have notLink : ∀ {here}, d.isDirectoryAt here = true → ∀ t, d.entryAt here ≠ some (.link t) := by
    intro here isDir t found
    cases isDirectory_of_isDirectoryAt isDir found
  induction leads with
  | done => exact start
  | void _ _ _ ih => exact ih start
  | up isDir _ ih => exact ih (notLink (sound.isDirectoryAt_dropLast isDir))
  | down _ _ entry _ ih => exact ih entry
  | halt _ _ _ stops => exact absurd (always.symm.trans stops) (by decide)
  | follow isDir _ _ _ _ _ ih =>
    refine ih ?_
    rw [startOf]
    split
    · exact notLink d.isDirectoryAt_root
    · exact notLink isDir

/-- A walk that does not end at a link followed every link that it met. -/
theorem Leads.through_of_notLink (leads : Leads d through links at_ xs left goal)
    (notLink : ∀ t, d.entryAt goal ≠ some (.link t)) : Leads d true links at_ xs left goal := by
  induction leads with
  | done => exact .done
  | void isDir void _ ih => exact .void isDir void (ih notLink)
  | up isDir _ ih => exact .up isDir (ih notLink)
  | down isDir isStep entry _ ih => exact .down isDir isStep entry (ih notLink)
  | halt _ _ entry => exact absurd entry (notLink _)
  | follow isDir isStep entry _ some _ ih => exact .follow isDir isStep entry (.inr rfl) some (ih notLink)

/-- A walk that stops at a link at the end goes where one through it goes, or no further than that
link. -/
theorem Leads.stops (leads : Leads d true links at_ xs left goal) :
    ∃ k here, Leads d false links at_ xs k here ∧ (here = goal ∨ ∃ t, d.entryAt here = some (.link t)) := by
  induction leads with
  | done => exact ⟨_, _, .done, .inl rfl⟩
  | void isDir void _ ih =>
    obtain ⟨k, here, stopped, reached⟩ := ih
    exact ⟨k, here, .void isDir void stopped, reached⟩
  | up isDir _ ih =>
    obtain ⟨k, here, stopped, reached⟩ := ih
    exact ⟨k, here, .up isDir stopped, reached⟩
  | down isDir isStep entry _ ih =>
    obtain ⟨k, here, stopped, reached⟩ := ih
    exact ⟨k, here, .down isDir isStep entry stopped, reached⟩
  | halt _ _ _ stops => cases stops
  | @follow links left at_ goal name target rest isDir isStep entry _ some _ ih =>
    by_cases last : rest = []
    · subst last
      exact ⟨_, _, .halt isDir isStep entry rfl, .inr ⟨target, entry⟩⟩
    · obtain ⟨k, here, stopped, reached⟩ := ih
      exact ⟨k, here, .follow isDir isStep entry (.inl last) some stopped, reached⟩

/-- Names lead to the same place in every later state. -/
theorem Leads.later {touched : Place → Prop} (later : Later touched d d')
    (leads : Leads d through links at_ xs left goal) : Leads d' through links at_ xs left goal := by
  induction leads with
  | done => exact .done
  | void isDir void _ ih => exact .void (later.directories _ isDir) void ih
  | up isDir _ ih => exact .up (later.directories _ isDir) ih
  | down isDir isStep entry _ ih =>
    exact .down (later.directories _ isDir) isStep (fun t => mt (later.links _ t).mp (entry t)) ih
  | halt isDir isStep entry stops =>
    exact .halt (later.directories _ isDir) isStep ((later.links _ _).mpr entry) stops
  | follow isDir isStep entry goesOn some _ ih =>
    exact .follow (later.directories _ isDir) isStep ((later.links _ _).mpr entry) goesOn some ih

theorem Later.place {touched : Place → Prop} (later : Later touched d d')
    (found : d.place through p = .ok goal) : d'.place through p = .ok goal := by
  rw [place_eq_ok_iff] at found ⊢
  obtain ⟨faultless, left, leads⟩ := found
  rw [later.workingPlace]
  exact ⟨faultless, left, leads.later later⟩

/-- Where names lead without following the last one, they still lead when a file has been put there,
if they then lead anywhere, and what is there is the file. -/
theorem Leads.put_file {e : Entry} (isFile : e.isFile = true) (notRoot : goal ≠ [])
    (leads : Leads d through links at_ xs left goal) (stops : through = false) {links' left' : Nat}
    {goal' : Place} (again : Leads (d.put goal e) true links' at_ xs left' goal') :
    goal' = goal ∧ ∃ k, Leads (d.put goal e) false links' at_ xs k goal := by
  have atGoal : (d.put goal e).entryAt goal = some e := entryAt_put_self notRoot
  have elsewhere : ∀ {here}, here ≠ goal → (d.put goal e).entryAt here = d.entryAt here :=
    fun other => entryAt_put_of_ne notRoot other
  have notLink := notLink_of_file atGoal isFile
  have notDir : (d.put goal e).isDirectoryAt goal ≠ true := by
    rw [isDirectoryAt_of_file atGoal isFile]
    simp
  generalize whole : d.put goal e = d' at again atGoal elsewhere notLink notDir
  clear whole
  induction leads generalizing links' with
  | done =>
    cases again
    exact ⟨rfl, _, .done⟩
  | void isDir void _ ih =>
    cases again with
    | void isDir' _ again =>
      obtain ⟨same, k, again⟩ := ih notRoot again atGoal elsewhere notLink notDir
      exact ⟨same, k, .void isDir' void again⟩
    | up => exact absurd void (by decide)
    | down _ isStep => exact absurd void isStep.notVoid
    | follow _ isStep => exact absurd void isStep.notVoid
    | halt _ isStep => exact absurd void isStep.notVoid
  | up isDir _ ih =>
    cases again with
    | void _ void => exact absurd void (by decide)
    | up isDir' again =>
      obtain ⟨same, k, again⟩ := ih notRoot again atGoal elsewhere notLink notDir
      exact ⟨same, k, .up isDir' again⟩
    | down _ isStep => exact absurd rfl isStep.notUp
    | follow _ isStep => exact absurd rfl isStep.notUp
    | halt _ isStep => exact absurd rfl isStep.notUp
  | @down links left at_ goal name rest isDir isStep free leads ih =>
    cases again with
    | void _ void => exact absurd void isStep.notVoid
    | up => exact absurd rfl isStep.notUp
    | down isDir' _ free' again =>
      obtain ⟨same, k, again⟩ := ih notRoot again atGoal elsewhere notLink notDir
      exact ⟨same, k, .down isDir' isStep free' again⟩
    | follow _ _ entry =>
      by_cases atEnd : at_ ++ [name] = goal
      · exact absurd (atEnd ▸ entry) (notLink _)
      · exact absurd ((elsewhere atEnd).symm.trans entry) (free _)
    | halt _ _ _ never => cases never
  | halt isDir isStep entry =>
    cases again with
    | void _ void => exact absurd void isStep.notVoid
    | up => exact absurd rfl isStep.notUp
    | down isDir' _ free again =>
      cases again
      exact ⟨rfl, _, .down isDir' isStep free .done⟩
    | follow _ _ entry => exact absurd entry (notLink _)
    | halt _ _ _ never => cases never
  | @follow links left at_ goal name target rest isDir isStep entry goesOn some leads ih =>
    have more : rest ≠ [] := goesOn.resolve_right (by simp [stops])
    cases again with
    | void _ void => exact absurd void isStep.notVoid
    | up => exact absurd rfl isStep.notUp
    | down _ _ free again =>
      by_cases atEnd : at_ ++ [name] = goal
      · rw [atEnd] at again
        exact absurd (again.isDirectoryAt_start more) notDir
      · exact absurd ((elsewhere atEnd).trans entry) (free _)
    | @follow _ _ _ _ _ target' _ isDir' _ entry' _ _ again =>
      by_cases atEnd : at_ ++ [name] = goal
      · exact absurd (atEnd ▸ entry') (notLink _)
      · have entry'' := entry'
        rw [elsewhere atEnd, entry] at entry''
        cases entry''
        obtain ⟨same, k, again⟩ := ih notRoot again atGoal elsewhere notLink notDir
        exact ⟨same, k, .follow isDir' isStep entry' (.inl more) some again⟩
    | halt _ _ _ never => cases never

/-! ## Finding -/

theorem find_eq_ok_iff {e : Entry} : d.find through p = .ok (at_, e) ↔
    d.place through p = .ok at_ ∧ d.entryAt at_ = some e := by
  rw [find]
  rcases d.place through p with e' | here
  · simp [bind, Except.bind]
  · simp only [bind, Except.bind, Except.ok.injEq]
    rcases found : d.entryAt here with _ | e'
    · constructor
      · intro h
        cases h
      · rintro ⟨rfl, h⟩
        rw [found] at h
        cases h
    · simp only [pure, Except.pure, Except.ok.injEq, Prod.mk.injEq]
      constructor
      · rintro ⟨rfl, rfl⟩
        exact ⟨rfl, found⟩
      · rintro ⟨rfl, h⟩
        rw [found] at h
        exact ⟨rfl, Option.some.inj h⟩

theorem isDirectory_iff : d.isDirectory p = true ↔
    ∃ at_, d.place true p = .ok at_ ∧ d.isDirectoryAt at_ = true := by
  rw [isDirectory]
  constructor
  · intro h
    split at h
    · rename_i at_ mode found
      obtain ⟨led, entry⟩ := find_eq_ok_iff.mp found
      exact ⟨at_, led, isDirectoryAt_of_entryAt entry⟩
    · cases h
  · rintro ⟨at_, led, isDir⟩
    obtain ⟨mode, entry⟩ := isDirectoryAt_iff.mp isDir
    rw [find_eq_ok_iff.mpr ⟨led, entry⟩]

theorem isFile_iff : d.isFile p = true ↔ ∃ at_ e, d.find true p = .ok (at_, e) ∧ e.isFile = true := by
  rw [isFile]
  constructor
  · intro h
    split at h
    · rename_i at_ content mode modified found
      exact ⟨at_, _, found, rfl⟩
    · cases h
  · rintro ⟨at_, e, found, isFile⟩
    cases e with
    | file => rw [found]
    | directory => cases isFile
    | link => cases isFile

theorem exists_iff : d.exists_ p = true ↔ ∃ at_ e, d.place true p = .ok at_ ∧ d.entryAt at_ = some e := by
  rw [exists_]
  rcases found : d.find true p with e | ⟨at_, e⟩
  · refine ⟨fun h => ?_, ?_⟩
    · cases h
    · rintro ⟨at_, e', led, entry⟩
      rw [find_eq_ok_iff.mpr ⟨led, entry⟩] at found
      cases found
  · exact ⟨fun _ => ⟨at_, e, find_eq_ok_iff.mp found⟩, fun _ => rfl⟩

theorem short_of_faultless {q : Path} (faultless : pathFault? q = none) :
    Text.utf8Length q ≤ longestPath := by
  rw [pathFault?] at faultless
  split at faultless
  · cases faultless
  split at faultless
  · cases faultless
  split at faultless
  · cases faultless
  omega

theorem noNul_of_faultless (faultless : pathFault? p = none) : '\x00' ∉ p.toList := by
  intro nul
  rw [pathFault?, if_pos (by simpa using nul)] at faultless
  cases faultless

/-- The goal of a path is the root, or it can hold an entry. -/
theorem WellFormed.fits_of_place (sound : d.WellFormed) (found : d.place through p = .ok goal) :
    goal = [] ∨ d.Fits goal := by
  obtain ⟨faultless, left, leads⟩ := place_eq_ok_iff.mp found
  refine leads.fits sound ?_ ?_
  · exact fun x member => clean_of_mem_names (noNul_of_faultless faultless) member
  · exact sound.fits_of_isDirectoryAt (leads.isDirectoryAt_start (Path.names_ne_nil p))

/-- A path whose links are followed does not lead to a link. -/
theorem WellFormed.notLink_of_place (sound : d.WellFormed) (found : d.place true p = .ok goal) :
    ∀ t, d.entryAt goal ≠ some (.link t) := by
  obtain ⟨_, left, leads⟩ := place_eq_ok_iff.mp found
  refine leads.goal_notLink sound rfl ?_
  intro t entry
  cases isDirectory_of_isDirectoryAt (leads.isDirectoryAt_start (Path.names_ne_nil p)) entry

/-- A path that does not lead to a link leads there through all links. -/
theorem place_true_of_notLink (found : d.place through p = .ok goal)
    (notLink : ∀ t, d.entryAt goal ≠ some (.link t)) : d.place true p = .ok goal := by
  obtain ⟨faultless, left, leads⟩ := place_eq_ok_iff.mp found
  exact place_eq_ok_iff.mpr ⟨faultless, left, leads.through_of_notLink notLink⟩

/-- A path that leads somewhere through all links stops there, or at a link. -/
theorem place_false_of_true (found : d.place true p = .ok goal) :
    ∃ here, d.place false p = .ok here ∧ (here = goal ∨ ∃ t, d.entryAt here = some (.link t)) := by
  obtain ⟨faultless, left, leads⟩ := place_eq_ok_iff.mp found
  obtain ⟨k, here, stopped, reached⟩ := leads.stops
  exact ⟨here, place_eq_ok_iff.mpr ⟨faultless, k, stopped⟩, reached⟩

/-- A file put where a path leads is there, if the path then leads anywhere. -/
theorem place_put_file {e : Entry} (isFile : e.isFile = true) (notRoot : goal ≠ [])
    (found : d.place false p = .ok goal) {goal' : Place}
    (again : (d.put goal e).place true p = .ok goal') :
    goal' = goal ∧ (d.put goal e).place false p = .ok goal := by
  obtain ⟨_, _, leads⟩ := place_eq_ok_iff.mp found
  obtain ⟨faultless, _, leads'⟩ := place_eq_ok_iff.mp again
  obtain ⟨same, k, stopped⟩ := leads.put_file isFile notRoot rfl leads'
  exact ⟨same, place_eq_ok_iff.mpr ⟨faultless, k, stopped⟩⟩

theorem readText_of_find {at_ : Place} {s : String} {mode : Nat} {modified : Time.Instant}
    (found : d.find true p = .ok (at_, .file (.text s) mode modified)) : d.readText p = .ok s := by
  rw [readText, found]
  rfl

theorem find_of_readText {s : String} (read : d.readText p = .ok s) :
    ∃ at_ mode modified, d.find true p = .ok (at_, .file (.text s) mode modified) := by
  rw [readText] at read
  rcases found : d.find true p with e | ⟨at_, e⟩
  · rw [found] at read
    cases read
  · rw [found] at read
    rcases e with ⟨s' | b, mode, modified⟩ | mode | target
    · cases read
      exact ⟨at_, mode, modified, rfl⟩
    · cases read
    · cases read
    · cases read

theorem exists_of_readText {s : String} (read : d.readText p = .ok s) : d.exists_ p = true := by
  obtain ⟨at_, mode, modified, found⟩ := find_of_readText read
  rw [exists_, found]
  rfl

theorem readOptional_eq_some {s : String} (read : d.readOptional p = .ok (some s)) : d.readText p = .ok s := by
  rw [readOptional] at read
  split at read
  · rename_i text found
    cases read
    exact found
  · cases read
  · cases read

theorem readOptional_of_readText {s : String} (read : d.readText p = .ok s) :
    d.readOptional p = .ok (some s) := by
  rw [readOptional, read]

theorem readOptional_eq_none_iff : d.readOptional p = .ok none ↔ d.find true p = .error .notFound := by
  constructor
  · intro read
    rw [readOptional] at read
    rcases found : d.find true p with e | ⟨at_, e⟩
    · rw [readText, found] at read
      cases e <;> first | rfl | cases read
    · rw [readText, found] at read
      rcases e with ⟨s | b, mode, modified⟩ | mode | target <;> cases read
  · intro missing
    rw [readOptional, readText, missing]
    rfl

/-- A name put after the path of a directory leads as it does from there. -/
theorem place_join_of_leads (found : d.place true p = .ok at_) (isName : IsName name)
    (faultless : pathFault? (Path.join p name) = none)
    (last : ∀ left, Leads d through left at_ [name] left goal) : d.place through (Path.join p name) = .ok goal := by
  obtain ⟨_, left, leads⟩ := place_eq_ok_iff.mp found
  have start : startOf d.workingPlace (Path.join p name) = startOf d.workingPlace p := by
    rw [startOf, startOf, Path.isAbsolute_join p isName.plain]
  refine place_eq_ok_iff.mpr ⟨faultless, left, ?_⟩
  rw [start]
  rcases Path.names_join p isName.plain with whole | ⟨front, ends, whole⟩
  · rw [whole]
    exact (leads_append_iff (by simp)).mpr ⟨left, at_, leads, last left⟩
  · rw [ends] at leads
    obtain ⟨k, mid, first, final⟩ := (leads_append_iff (by simp)).mp leads
    obtain ⟨_, rfl, rfl⟩ := (leads_void_iff (.inl rfl)).mp final
    rw [whole]
    exact (leads_append_iff (by simp)).mpr ⟨_, _, first, last _⟩

/-- A name put after the path of a directory leads to its place there. -/
theorem place_join (found : d.place true p = .ok at_) (isDir : d.isDirectoryAt at_ = true)
    (isName : IsName name) (notLink : ∀ t, d.entryAt (at_ ++ [name]) ≠ some (.link t))
    (faultless : pathFault? (Path.join p name) = none) :
    d.place through (Path.join p name) = .ok (at_ ++ [name]) := by
  refine place_join_of_leads found isName faultless fun left => ?_
  exact (Leads.name_iff isName.isStep notLink).mpr ⟨isDir, rfl, rfl⟩

/-- The name itself leads there even if it is that of a link. -/
theorem place_false_join (found : d.place true p = .ok at_) (isDir : d.isDirectoryAt at_ = true)
    (isName : IsName name) (faultless : pathFault? (Path.join p name) = none) :
    d.place false (Path.join p name) = .ok (at_ ++ [name]) := by
  by_cases link : ∃ t, d.entryAt (at_ ++ [name]) = some (.link t)
  · obtain ⟨t, entry⟩ := link
    exact place_join_of_leads found isName faultless fun left => .halt isDir isName.isStep entry rfl
  · exact place_join found isDir isName (not_exists.mp link) faultless

theorem eq_of_place_false_join {goal : Place} (led : d.place false (Path.join p name) = .ok goal)
    (found : d.place true p = .ok at_) (isDir : d.isDirectoryAt at_ = true) (isName : IsName name) :
    goal = at_ ++ [name] :=
  Except.ok.inj (led.symm.trans (place_false_join found isDir isName (place_eq_ok_iff.mp led).1))

/-- Where a name after a path leads, the path leads to a directory. -/
theorem place_of_join (isName : IsName name)
    (found : d.place through (Path.join p name) = .ok goal) (faultless : pathFault? p = none) :
    ∃ at_, d.place true p = .ok at_ ∧ d.isDirectoryAt at_ = true ∧
      ((∀ t, d.entryAt (at_ ++ [name]) ≠ some (.link t)) → goal = at_ ++ [name]) := by
  obtain ⟨_, left, leads⟩ := place_eq_ok_iff.mp found
  have start : startOf d.workingPlace (Path.join p name) = startOf d.workingPlace p := by
    rw [startOf, startOf, Path.isAbsolute_join p isName.plain]
  rw [start] at leads
  rcases Path.names_join p isName.plain with whole | ⟨front, ends, whole⟩
  · rw [whole] at leads
    obtain ⟨k, at_, first, final⟩ := (leads_append_iff (by simp)).mp leads
    refine ⟨at_, place_eq_ok_iff.mpr ⟨faultless, k, first⟩, final.isDirectoryAt_start (by simp), ?_⟩
    exact fun notLink => ((Leads.name_iff isName.isStep notLink).mp final).2.2
  · rw [whole] at leads
    obtain ⟨k, at_, first, final⟩ := (leads_append_iff (by simp)).mp leads
    have isDir := final.isDirectoryAt_start (by simp)
    refine ⟨at_, place_eq_ok_iff.mpr ⟨faultless, k, ?_⟩, isDir, ?_⟩
    · rw [ends]
      exact (leads_append_iff (by simp)).mpr ⟨k, at_, first, (leads_void_iff (.inl rfl)).mpr ⟨isDir, rfl, rfl⟩⟩
    · exact fun notLink => ((Leads.name_iff isName.isStep notLink).mp final).2.2

end Keyring.Disk

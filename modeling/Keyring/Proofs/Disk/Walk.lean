import Keyring.Proofs.Disk.Entries
import Keyring.Proofs.Path.Segments

/-!
# Following paths

Where names lead to, as a relation that does not count steps (`Leads`); `walk`
finds just that (`place_eq_ok_iff`).
-/

namespace Keyring.Disk

variable {d d' : Disk} {through : Bool} {links left : Nat} {at_ goal : Place} {xs ys : List String}
  {name target : String} {p : Path}

structure IsStep (name : String) : Prop where
  notVoid : ¬(name = "" ∨ name = ".")
  notUp : name ≠ ".."
  short : Text.utf8Length name ≤ longestName

/-- The place from which a path is followed. -/
def startOf (here : Place) (p : Path) : Place := if Path.isAbsolute p then [] else here

/-- From a place, names lead to a goal; of the links that may be followed, some are left. -/
inductive Leads (d : Disk) (through : Bool) : Nat → Place → List String → Nat → Place → Prop
  | done {links : Nat} {at_ : Place} : Leads d through links at_ [] links at_
  | void {links left : Nat} {at_ goal : Place} {name : String} {rest : List String} :
      d.isDirectoryAt at_ = true → (name = "" ∨ name = ".") → Leads d through links at_ rest left goal →
      Leads d through links at_ (name :: rest) left goal
  | up {links left : Nat} {at_ goal : Place} {rest : List String} :
      d.isDirectoryAt at_ = true → Leads d through links at_.dropLast rest left goal →
      Leads d through links at_ (".." :: rest) left goal
  | down {links left : Nat} {at_ goal : Place} {name : String} {rest : List String} :
      d.isDirectoryAt at_ = true → IsStep name → (∀ t, d.entryAt (at_ ++ [name]) ≠ some (.link t)) →
      Leads d through links (at_ ++ [name]) rest left goal →
      Leads d through links at_ (name :: rest) left goal
  | halt {links : Nat} {at_ : Place} {name target : String} :
      d.isDirectoryAt at_ = true → IsStep name → d.entryAt (at_ ++ [name]) = some (.link target) →
      through = false → Leads d through links at_ [name] links (at_ ++ [name])
  | follow {links left : Nat} {at_ goal : Place} {name target : String} {rest : List String} :
      d.isDirectoryAt at_ = true → IsStep name → d.entryAt (at_ ++ [name]) = some (.link target) →
      (rest ≠ [] ∨ through = true) → target ≠ "" →
      Leads d through links (startOf at_ target) (Path.names target ++ rest) left goal →
      Leads d through (links + 1) at_ (name :: rest) left goal

def LinksWithin (d : Disk) (longest : Nat) : Prop :=
  ∀ at_ target, d.entryAt at_ = some (.link target) → target.length ≤ longest

theorem leads_of_walk {fuel : Nat} (found : d.walk through fuel links at_ xs = .ok goal) :
    ∃ left, Leads d through links at_ xs left goal := by
  induction fuel generalizing links at_ xs with
  | zero => cases found
  | succ fuel ih =>
    rcases xs with _ | ⟨name, rest⟩
    · cases found
      exact ⟨links, .done⟩
    rw [walk] at found
    split at found
    · cases found
    rename_i isDir
    have isDir : d.isDirectoryAt at_ = true := by simpa using isDir
    split at found
    · rename_i void
      obtain ⟨left, leads⟩ := ih found
      exact ⟨left, .void isDir void leads⟩
    rename_i notVoid
    split at found
    · rename_i isUp
      subst isUp
      obtain ⟨left, leads⟩ := ih found
      exact ⟨left, .up isDir leads⟩
    rename_i notUp
    split at found
    · cases found
    rename_i short
    have isStep : IsStep name := ⟨notVoid, notUp, by omega⟩
    split at found
    · rename_i target entry
      split at found
      · rename_i atEnd
        obtain ⟨rfl, stops⟩ := atEnd
        cases found
        exact ⟨links, .halt isDir isStep entry (by simpa using stops)⟩
      rename_i goesOn
      split at found
      · cases found
      rename_i some
      split at found
      · cases found
      rename_i nonempty
      obtain ⟨left, leads⟩ := ih found
      obtain ⟨links, rfl⟩ : ∃ n, links = n + 1 := Nat.exists_eq_succ_of_ne_zero some
      refine ⟨left, .follow isDir isStep entry ?_ (by simpa using nonempty) leads⟩
      by_cases last : rest = []
      · exact .inr (by simpa [last] using goesOn)
      · exact .inl last
    · rename_i notLink
      obtain ⟨left, leads⟩ := ih found
      exact ⟨left, .down isDir isStep notLink leads⟩

/-- The steps that suffice for some names and links. -/
def stepsFor (longest links : Nat) (xs : List String) : Nat := xs.length + links * (longest + 2) + 1

theorem exists_succ_of_stepsFor {longest fuel : Nat} (enough : stepsFor longest links xs ≤ fuel) :
    ∃ n, fuel = n + 1 := by
  rw [stepsFor] at enough
  exact ⟨fuel - 1, by omega⟩

theorem stepsFor_rest {longest fuel : Nat} {rest : List String}
    (enough : stepsFor longest links (name :: rest) ≤ fuel) :
    ∃ n, fuel = n + 1 ∧ stepsFor longest links rest ≤ n := by
  simp only [stepsFor, List.length_cons] at enough ⊢
  exact ⟨fuel - 1, by omega, by omega⟩

/-- The names of a link that is followed are paid for by the link. -/
theorem stepsFor_follow {longest fuel : Nat} {rest : List String} (short : target.length ≤ longest)
    (enough : stepsFor longest (links + 1) (name :: rest) ≤ fuel) :
    ∃ n, fuel = n + 1 ∧ stepsFor longest links (Path.names target ++ rest) ≤ n := by
  have named := Path.length_names_le target
  simp only [stepsFor, List.length_cons, List.length_append, Nat.succ_mul] at enough ⊢
  exact ⟨fuel - 1, by omega, by omega⟩

/-! ## One step of a walk -/

section Step

variable {fuel : Nat} {rest : List String} (isDir : d.isDirectoryAt at_ = true)

include isDir

theorem walk_void (void : name = "" ∨ name = ".") :
    d.walk through (fuel + 1) links at_ (name :: rest) = d.walk through fuel links at_ rest := by
  rw [walk, if_neg (by simp [isDir]), if_pos void]

theorem walk_up :
    d.walk through (fuel + 1) links at_ (".." :: rest) = d.walk through fuel links at_.dropLast rest := by
  rw [walk, if_neg (by simp [isDir]), if_neg (by decide), if_pos rfl]

theorem walk_down (isStep : IsStep name) (notLink : ∀ t, d.entryAt (at_ ++ [name]) ≠ some (.link t)) :
    d.walk through (fuel + 1) links at_ (name :: rest) = d.walk through fuel links (at_ ++ [name]) rest := by
  rw [walk, if_neg (by simp [isDir]), if_neg isStep.notVoid, if_neg isStep.notUp,
    if_neg (by have := isStep.short; omega)]
  split
  · rename_i target entry
    exact absurd entry (notLink target)
  · rfl

theorem walk_follow (isStep : IsStep name) (entry : d.entryAt (at_ ++ [name]) = some (.link target))
    (goesOn : rest ≠ [] ∨ through = true) (nonempty : target ≠ "") :
    d.walk through (fuel + 1) (links + 1) at_ (name :: rest) =
      d.walk through fuel links (startOf at_ target) (Path.names target ++ rest) := by
  have goesOn' : ¬(rest = [] ∧ (!through) = true) := by
    rintro ⟨last, stops⟩
    rcases goesOn with more | through
    · exact more last
    · simp [through] at stops
  rw [walk, if_neg (by simp [isDir]), if_neg isStep.notVoid, if_neg isStep.notUp,
    if_neg (by have := isStep.short; omega), entry]
  simp only [if_neg goesOn', Nat.succ_ne_zero, if_false, Nat.add_sub_cancel]
  rw [if_neg (by simpa using nonempty)]
  rfl

theorem walk_tooManyLinks (isStep : IsStep name) (entry : d.entryAt (at_ ++ [name]) = some (.link target))
    (goesOn : rest ≠ [] ∨ through = true) :
    d.walk through (fuel + 1) 0 at_ (name :: rest) = .error .tooManyLinks := by
  have goesOn' : ¬(rest = [] ∧ (!through) = true) := by
    rintro ⟨last, stops⟩
    rcases goesOn with more | through
    · exact more last
    · simp [through] at stops
  rw [walk, if_neg (by simp [isDir]), if_neg isStep.notVoid, if_neg isStep.notUp,
    if_neg (by have := isStep.short; omega), entry]
  simp only [if_neg goesOn', if_true]

theorem walk_halt (isStep : IsStep name) (entry : d.entryAt (at_ ++ [name]) = some (.link target))
    (stops : through = false) : d.walk through (fuel + 1) links at_ [name] = .ok (at_ ++ [name]) := by
  rw [walk, if_neg (by simp [isDir]), if_neg isStep.notVoid, if_neg isStep.notUp,
    if_neg (by have := isStep.short; omega), entry]
  simp [stops]

end Step

theorem walk_of_leads {longest : Nat} (bounded : d.LinksWithin longest)
    (leads : Leads d through links at_ xs left goal) {fuel : Nat}
    (enough : stepsFor longest links xs ≤ fuel) : d.walk through fuel links at_ xs = .ok goal := by
  induction leads generalizing fuel with
  | done =>
    obtain ⟨fuel, rfl⟩ := exists_succ_of_stepsFor enough
    rfl
  | void isDir void _ ih =>
    obtain ⟨fuel, rfl, room⟩ := stepsFor_rest enough
    rw [walk_void isDir void]
    exact ih room
  | up isDir _ ih =>
    obtain ⟨fuel, rfl, room⟩ := stepsFor_rest enough
    rw [walk_up isDir]
    exact ih room
  | down isDir isStep notLink _ ih =>
    obtain ⟨fuel, rfl, room⟩ := stepsFor_rest enough
    rw [walk_down isDir isStep notLink]
    exact ih room
  | halt isDir isStep entry stops =>
    obtain ⟨fuel, rfl⟩ := exists_succ_of_stepsFor enough
    exact walk_halt isDir isStep entry stops
  | follow isDir isStep entry goesOn nonempty _ ih =>
    obtain ⟨fuel, rfl, room⟩ := stepsFor_follow (bounded _ _ entry) enough
    rw [walk_follow isDir isStep entry goesOn nonempty]
    exact ih room

theorem le_foldl_max (ns : List Nat) (start : Nat) :
    start ≤ ns.foldl max start ∧ ∀ n ∈ ns, n ≤ ns.foldl max start := by
  induction ns generalizing start with
  | nil => simp
  | cons m ns ih =>
    obtain ⟨first, rest⟩ := ih (max start m)
    rw [List.foldl_cons]
    refine ⟨by omega, fun n member => ?_⟩
    rcases List.mem_cons.mp member with rfl | member
    · omega
    · exact rest n member

theorem walkFuel_suffices (d : Disk) (p : Path) :
    ∃ longest, d.LinksWithin longest ∧ stepsFor longest mostLinks (Path.names p) ≤ d.walkFuel p := by
  obtain ⟨longest, fuel, bounded⟩ : ∃ longest,
      d.walkFuel p = p.length + (mostLinks + 1) * (longest + 2) + 2 ∧ d.LinksWithin longest := by
    refine ⟨_, rfl, ?_⟩
    intro at_ target found
    have notRoot : at_ ≠ [] := by
      rintro rfl
      cases found
    rw [entryAt, if_neg notRoot] at found
    exact (le_foldl_max _ 0).2 _ (List.mem_map.mpr ⟨_, mem_of_lookup found, rfl⟩)
  have named := Path.length_names_le p
  refine ⟨longest, bounded, ?_⟩
  simp only [stepsFor, fuel, mostLinks]
  omega

/-- A path without a fault leads where its names lead. -/
theorem place_eq_ok_iff : d.place through p = .ok goal ↔ pathFault? p = none ∧
    ∃ left, Leads d through mostLinks (startOf d.workingPlace p) (Path.names p) left goal := by
  rw [place]
  split
  · rename_i e fault
    simp [fault]
  · rename_i faultless
    rw [faultless]
    obtain ⟨longest, bounded, enough⟩ := d.walkFuel_suffices p
    constructor
    · intro found
      exact ⟨rfl, leads_of_walk found⟩
    · rintro ⟨-, left, leads⟩
      exact walk_of_leads bounded leads enough

/-- Names lead on from where those before them lead, which is through every link. -/
theorem leads_append_iff (more : ys ≠ []) : Leads d through links at_ (xs ++ ys) left goal ↔
    ∃ k mid, Leads d true links at_ xs k mid ∧ Leads d through k mid ys left goal := by
  constructor
  · intro leads
    generalize whole : xs ++ ys = zs at leads
    induction leads generalizing xs with
    | done => exact absurd (List.append_eq_nil_iff.mp whole).2 more
    | @void links left at_ goal name rest isDir void leads ih =>
      rcases xs with _ | ⟨x, xs⟩
      · obtain rfl : ys = name :: rest := whole
        exact ⟨_, _, .done, .void isDir void leads⟩
      · obtain ⟨rfl, rfl⟩ := List.cons_eq_cons.mp whole
        obtain ⟨k, mid, first, second⟩ := ih rfl
        exact ⟨k, mid, .void isDir void first, second⟩
    | @up links left at_ goal rest isDir leads ih =>
      rcases xs with _ | ⟨x, xs⟩
      · obtain rfl : ys = ".." :: rest := whole
        exact ⟨_, _, .done, .up isDir leads⟩
      · obtain ⟨rfl, rfl⟩ := List.cons_eq_cons.mp whole
        obtain ⟨k, mid, first, second⟩ := ih rfl
        exact ⟨k, mid, .up isDir first, second⟩
    | @down links left at_ goal name rest isDir isStep notLink leads ih =>
      rcases xs with _ | ⟨x, xs⟩
      · obtain rfl : ys = name :: rest := whole
        exact ⟨_, _, .done, .down isDir isStep notLink leads⟩
      · obtain ⟨rfl, rfl⟩ := List.cons_eq_cons.mp whole
        obtain ⟨k, mid, first, second⟩ := ih rfl
        exact ⟨k, mid, .down isDir isStep notLink first, second⟩
    | @halt links at_ name target isDir isStep entry stops =>
      rcases xs with _ | ⟨x, xs⟩
      · obtain rfl : ys = [name] := whole
        exact ⟨_, _, .done, .halt isDir isStep entry stops⟩
      · obtain ⟨_, rest⟩ := List.cons_eq_cons.mp whole
        exact absurd (List.append_eq_nil_iff.mp rest).2 more
    | @follow links left at_ goal name target rest isDir isStep entry goesOn some leads ih =>
      rcases xs with _ | ⟨x, xs⟩
      · obtain rfl : ys = name :: rest := whole
        exact ⟨_, _, .done, .follow isDir isStep entry goesOn some leads⟩
      · obtain ⟨rfl, rfl⟩ := List.cons_eq_cons.mp whole
        obtain ⟨k, mid, first, second⟩ := ih (List.append_assoc _ _ _)
        exact ⟨k, mid, .follow isDir isStep entry (.inr rfl) some first, second⟩
  · rintro ⟨k, mid, first, second⟩
    induction first with
    | done => exact second
    | void isDir void _ ih => exact .void isDir void (ih second)
    | up isDir _ ih => exact .up isDir (ih second)
    | down isDir isStep notLink _ ih => exact .down isDir isStep notLink (ih second)
    | halt _ _ _ stops => cases stops
    | follow isDir isStep entry _ some _ ih =>
      refine .follow isDir isStep entry (.inl ?_) some ?_
      · exact fun nothing => more (List.append_eq_nil_iff.mp nothing).2
      · have tail := ih second
        rwa [List.append_assoc] at tail

theorem Leads.isDirectoryAt_start (leads : Leads d through links at_ xs left goal) (some : xs ≠ []) :
    d.isDirectoryAt at_ = true := by
  cases leads with
  | done => exact absurd rfl some
  | void isDir => exact isDir
  | up isDir => exact isDir
  | down isDir => exact isDir
  | halt isDir => exact isDir
  | follow isDir => exact isDir

theorem leads_void_iff (void : name = "" ∨ name = ".") :
    Leads d through links at_ [name] left goal ↔ d.isDirectoryAt at_ = true ∧ left = links ∧ goal = at_ := by
  constructor
  · intro leads
    cases leads with
    | void isDir _ leads =>
      cases leads
      exact ⟨isDir, rfl, rfl⟩
    | up => exact absurd void (by decide)
    | down _ isStep => exact absurd void isStep.notVoid
    | halt _ isStep => exact absurd void isStep.notVoid
    | follow _ isStep => exact absurd void isStep.notVoid
  · rintro ⟨isDir, rfl, rfl⟩
    exact .void isDir void .done

/-- A name that is no link leads to its own place. -/
theorem Leads.name_iff (isStep : IsStep name) (notLink : ∀ t, d.entryAt (at_ ++ [name]) ≠ some (.link t)) :
    Leads d through links at_ [name] left goal ↔
      d.isDirectoryAt at_ = true ∧ left = links ∧ goal = at_ ++ [name] := by
  constructor
  · intro leads
    cases leads with
    | void _ void => exact absurd void isStep.notVoid
    | up => exact absurd rfl isStep.notUp
    | down isDir _ _ leads =>
      cases leads
      exact ⟨isDir, rfl, rfl⟩
    | halt _ _ entry => exact absurd entry (notLink _)
    | follow _ _ entry => exact absurd entry (notLink _)
  · rintro ⟨isDir, rfl, rfl⟩
    exact .down isDir isStep notLink .done

end Keyring.Disk

import Keyring.Proofs.Disk.Place
import Keyring.Proofs.Operation.Outcome
import Keyring.Proofs.Path.Parent

/-!
# Making directories

Directories are only added, on the way that a path names (`Paves`): a disk grows
while they are made, and stays as it is where they are there already.
-/

namespace Keyring

namespace Text

theorem utf8Length_append (a b : String) : utf8Length (a ++ b) = utf8Length a + utf8Length b := by
  simp [utf8Length, utf8Bytes]

end Text

namespace Disk

variable {α β : Type} {d d' : Disk} {p : Path} {at_ : Place} {touched : Place → Prop} {through : Bool}

theorem pathFault?_of_append {front back : String} (some : front ≠ "")
    (faultless : pathFault? (front ++ back) = none) : pathFault? front = none := by
  rw [pathFault?] at faultless ⊢
  split at faultless
  · cases faultless
  rename_i noNul
  split at faultless
  · cases faultless
  split at faultless
  · cases faultless
  rename_i short
  rw [Text.utf8Length_append] at short
  have noNul' : ¬front.toList.contains '\x00' = true := by
    intro nul
    apply noNul
    simp only [String.toList_append, List.contains_iff_mem, List.mem_append] at nul ⊢
    exact .inl nul
  rw [if_neg noNul', if_neg (by simpa using some), if_neg (by omega)]

theorem withoutEndSlashes_spec (p : Path) :
    ∃ k, p = withoutEndSlashes p ++ String.ofList (List.replicate k '/') := by
  rw [withoutEndSlashes]
  split
  · exact ⟨0, by simp⟩
  · have slashes : ∀ c ∈ p.toList.reverse.takeWhile (· = '/'), c = '/' := by
      intro c member
      simpa using List.all_eq_true.mp List.all_takeWhile c member
    have whole : p.toList = (p.toList.reverse.dropWhile (· = '/')).reverse ++
        List.replicate (p.toList.reverse.takeWhile (· = '/')).length '/' := by
      rw [← List.reverse_replicate, ← List.eq_replicate_of_mem slashes, ← List.reverse_append,
        List.takeWhile_append_dropWhile, List.reverse_reverse]
    refine ⟨(p.toList.reverse.takeWhile (· = '/')).length, ?_⟩
    rw [← String.ofList_append, ← whole, String.ofList_toList]

theorem withoutEndSlashes_ne_empty (some : p ≠ "") : withoutEndSlashes p ≠ "" := by
  rw [withoutEndSlashes]
  split
  · exact some
  · rename_i left
    rw [Ne, ← String.toList_inj, String.toList_ofList]
    exact left

/-- A path that ends otherwise has no slash to lose. -/
theorem withoutEndSlashes_of_noSlash (noSlash : p.toList.getLast? ≠ some '/') :
    withoutEndSlashes p = p := by
  have kept : (p.toList.reverse.dropWhile (· = '/')).reverse = p.toList := by
    rcases reversed : p.toList.reverse with _ | ⟨c, rest⟩
    · simpa using reversed
    · have ends : p.toList.getLast? = some c := by
        rw [← List.head?_reverse, reversed, List.head?_cons]
      have other : c ≠ '/' := by
        rintro rfl
        exact noSlash ends
      rw [List.dropWhile_cons_of_neg (by simpa using other), ← reversed, List.reverse_reverse]
  rw [withoutEndSlashes]
  split
  · rfl
  · rw [kept, String.ofList_toList]

theorem names_append_slashes (p : Path) (k : Nat) :
    Path.names (p ++ String.ofList (List.replicate k '/')) = Path.names p ++ List.replicate k "" := by
  induction k with
  | zero => simp
  | succ k ih =>
    have whole : p ++ String.ofList (List.replicate (k + 1) '/') =
        (p ++ String.ofList (List.replicate k '/')) ++ "/" ++ "" := by
      rw [List.replicate_succ', String.ofList_append, String.append_empty, ← String.append_assoc]
    rw [whole, Path.names_append_slash, ih, List.replicate_succ', ← List.append_assoc]
    rfl

theorem leads_replicate {through : Bool} {links left : Nat} {goal : Place} {k : Nat}
    (leads : Leads d through links at_ (List.replicate k "") left goal) : left = links ∧ goal = at_ := by
  induction k generalizing through left goal with
  | zero =>
    cases leads
    exact ⟨rfl, rfl⟩
  | succ k ih =>
    rw [List.replicate_succ'] at leads
    obtain ⟨mid, here, first, final⟩ := (leads_append_iff (by simp)).mp leads
    obtain ⟨_, rfl, rfl⟩ := (leads_void_iff (.inl rfl)).mp final
    exact ih first

/-- A path leads to the same place without the slashes at its end. -/
theorem place_withoutEndSlashes (found : d.place true p = .ok at_) :
    d.place true (withoutEndSlashes p) = .ok at_ := by
  obtain ⟨faultless, left, leads⟩ := place_eq_ok_iff.mp found
  have some : p ≠ "" := by
    rintro rfl
    cases faultless
  have front := withoutEndSlashes_ne_empty some
  obtain ⟨k, whole⟩ := withoutEndSlashes_spec p
  generalize withoutEndSlashes p = q at front whole
  subst whole
  rw [names_append_slashes, startOf, Path.isAbsolute_append front, ← startOf] at leads
  refine place_eq_ok_iff.mpr ⟨pathFault?_of_append front faultless, ?_⟩
  rcases k with _ | k
  · exact ⟨left, by simpa using leads⟩
  · obtain ⟨mid, here, first, final⟩ := (leads_append_iff (by simp [List.replicate_succ])).mp leads
    obtain ⟨rfl, rfl⟩ := leads_replicate final
    exact ⟨_, first⟩

@[simp] theorem outcome_ofExcept (r : Except FileError α) (d : Disk) :
    outcome (Disk.ofExcept r) d = (r, d) := by cases r <;> rfl

@[simp] theorem outcome_ask (question : Disk → Except FileError α) (d : Disk) :
    outcome (Disk.ask question) d = (question d, d) := by
  rw [Disk.ask, outcome_bind, outcome_get]
  exact outcome_ofExcept _ d

/-- From a well-formed disk, work leads to a later state of it, whatever the answer is. -/
def Keeps (touched : Place → Prop) (x : DiskM α) : Prop :=
  ∀ d, d.WellFormed → Later touched d (outcome x d).2

namespace Keeps

theorem pure (a : α) : Keeps touched (Pure.pure a : DiskM α) := fun _ sound => .refl sound

theorem get : Keeps touched (MonadState.get : DiskM Disk) := fun _ sound => .refl sound

theorem bind {x : DiskM α} {f : α → DiskM β} (first : Keeps touched x)
    (next : ∀ a, Keeps touched (f a)) : Keeps touched (x >>= f) := by
  intro d sound
  have moved := first d sound
  rw [outcome_bind]
  rcases h : outcome x d with ⟨e | a, t⟩
  · simpa [h] using moved
  · rw [h] at moved
    exact moved.trans (next a t moved.sound)

end Keeps

/-! ## Making directories -/

theorem outcome_makeDirectory (p : Path) (d : Disk) :
    outcome (makeDirectory p) d = match d.place false (withoutEndSlashes p) with
      | .error e => (.error e, d)
      | .ok at_ =>
        if (d.entryAt at_).isSome then (.error .exists, d)
        else (.ok (), d.put at_ (.directory directoryMode)) := by
  rw [makeDirectory, outcome_bind, outcome_ask]
  rcases d.place false (withoutEndSlashes p) with e | at_
  · rfl
  · dsimp only
    rw [outcome_bind, outcome_get]
    dsimp only
    split <;> rfl

/-- A directory that cannot be made leaves nothing behind. -/
theorem still_of_makeDirectory {e : FileError} (refused : outcome (makeDirectory p) d = (.error e, d')) :
    d' = d := by
  rw [outcome_makeDirectory] at refused
  split at refused
  · exact (Prod.mk.inj refused).2.symm
  · split at refused
    · exact (Prod.mk.inj refused).2.symm
    · cases refused

theorem grows_new {p : Path} (sound : d.WellFormed) (led : d.place false p = .ok at_)
    (free : d.entryAt at_ = none) : Grows d (d.put at_ (.directory directoryMode)) := by
  rcases sound.fits_of_place led with rfl | fits
  · cases free
  · refine Grows.putDirectory sound fits ?_
    intro e found
    rw [free] at found
    cases found

/-- How a disk changes while directories are made on the way that a path names: nothing but new
directories, each where a front of the path leads. -/
structure Paves (p : Path) (d d' : Disk) : Prop where
  grows : Grows d d'
  entry : ∀ here, d'.entryAt here = d.entryAt here ∨
    d.entryAt here = none ∧ d'.entryAt here = some (.directory directoryMode) ∧
      ∃ front back, p = front ++ back ∧ d'.place true front = .ok here

namespace Paves

theorem refl (sound : d.WellFormed) : Paves p d d := ⟨.refl sound, fun _ => .inl rfl⟩

theorem trans {d'' : Disk} (first : Paves p d d') (second : Paves p d' d'') : Paves p d d'' where
  grows := first.grows.trans second.grows
  entry := by
    intro here
    rcases second.entry here with same | ⟨free, new, onWay⟩
    · rcases first.entry here with same' | ⟨free, new, front, back, whole, led⟩
      · exact .inl (same.trans same')
      · exact .inr ⟨free, same.trans new, front, back, whole, second.grows.place led⟩
    · rcases first.entry here with same' | ⟨_, taken, _⟩
      · exact .inr ⟨same'.symm.trans free, new, onWay⟩
      · rw [free] at taken
        cases taken

theorem mono {q back : Path} (paves : Paves q d d') (whole : p = q ++ back) : Paves p d d' where
  grows := paves.grows
  entry := fun here => (paves.entry here).imp_right fun ⟨free, new, front, rest, whole', led⟩ =>
    ⟨free, new, front, rest ++ back, by rw [whole, whole', String.append_assoc], led⟩

end Paves

/-- Directories are all that work makes, on the way that a path names. -/
def Paving (p : Path) (x : DiskM α) : Prop := Moves (fun d d' => d.WellFormed → Paves p d d') x

namespace Paving

theorem pure (a : α) : Paving p (Pure.pure a : DiskM α) := fun _ sound => .refl sound

theorem throw (e : FileError) : Paving p (throwThe FileError e : DiskM α) := fun _ sound => .refl sound

theorem bind {x : DiskM α} {f : α → DiskM β} (first : Paving p x) (next : ∀ a, Paving p (f a)) :
    Paving p (x >>= f) :=
  Moves.bind (R := fun d d' : Disk => d.WellFormed → Paves p d d')
    (fun first second sound => (first sound).trans (second (first sound).grows.sound)) first next

theorem tryCatch {x : DiskM α} {handle : FileError → DiskM α} (first : Paving p x)
    (next : ∀ e, Paving p (handle e)) : Paving p (tryCatch x handle) :=
  Moves.tryCatch (R := fun d d' : Disk => d.WellFormed → Paves p d d')
    (fun first second sound => (first sound).trans (second (first sound).grows.sound)) first next

theorem keeps {x : DiskM α} (paving : Paving p x) : Keeps touched x :=
  fun d sound => (paving d sound).grows.later

end Paving

theorem paving_makeDirectory (p : Path) : Paving p (makeDirectory p) := by
  intro d sound
  rw [outcome_makeDirectory]
  split
  · exact .refl sound
  · rename_i at_ led
    split
    · exact .refl sound
    · rename_i taken
      have free : d.entryAt at_ = none := by simpa using taken
      have notRoot : at_ ≠ [] := by
        rintro rfl
        cases free
      have grows := grows_new sound led free
      refine ⟨grows, fun here => ?_⟩
      by_cases same : here = at_
      · subst same
        have notLink : ∀ t, d.entryAt here ≠ some (.link t) := by simp [free]
        obtain ⟨k, whole⟩ := withoutEndSlashes_spec p
        exact .inr ⟨free, entryAt_put_self notRoot, _, _, whole, grows.place (place_true_of_notLink led notLink)⟩
      · exact .inl (entryAt_put_of_ne notRoot same)

theorem paving_makeOrFindDirectory (p : Path) : Paving p (makeOrFindDirectory p) := by
  refine Paving.tryCatch (paving_makeDirectory p) fun e d sound => ?_
  rw [outcome_bind, outcome_get]
  dsimp only
  split
  · exact .refl sound
  · exact .refl sound

theorem paving_makeDirectories (fuel : Nat) (p : Path) : Paving p (makeDirectories fuel p) := by
  induction fuel generalizing p with
  | zero => exact Paving.throw _
  | succ fuel ih =>
    unfold makeDirectories
    split
    · exact Paving.pure _
    · refine Paving.tryCatch (paving_makeOrFindDirectory p) fun e => ?_
      cases e
      case notFound =>
        dsimp only
        split
        · rename_i parent found
          obtain ⟨back, whole⟩ := Path.front_of_parent? found
          exact Paving.bind (fun d sound => (ih parent d sound).mono whole) fun _ => paving_makeOrFindDirectory p
        · exact Paving.bind (Paving.throw _) fun _ => paving_makeOrFindDirectory p
      all_goals exact Paving.throw _

theorem paving_ensureDirectory (p : Path) : Paving p (ensureDirectory p) := paving_makeDirectories _ p

theorem keeps_ensureDirectory (p : Path) : Keeps touched (ensureDirectory p) := (paving_ensureDirectory p).keeps

theorem outcome_makeOrFindDirectory_of_isDirectory (isDir : d.isDirectory p = true) :
    outcome (makeOrFindDirectory p) d = (.ok (), d) := by
  obtain ⟨e, refused⟩ : ∃ e, outcome (makeDirectory p) d = (.error e, d) := by
    rw [outcome_makeDirectory]
    split
    · exact ⟨_, rfl⟩
    · rename_i at_ led
      have taken : (d.entryAt at_).isSome = true := by
        by_cases link : ∃ t, d.entryAt at_ = some (.link t)
        · obtain ⟨t, entry⟩ := link
          rw [entry]
          rfl
        · obtain ⟨goal, found, isDirAt⟩ := isDirectory_iff.mp isDir
          have same : d.place true (withoutEndSlashes p) = .ok at_ :=
            place_true_of_notLink led (not_exists.mp link)
          rw [place_withoutEndSlashes found] at same
          obtain rfl : goal = at_ := Except.ok.inj same
          obtain ⟨mode, entry⟩ := isDirectoryAt_iff.mp isDirAt
          rw [entry]
          rfl
      rw [if_pos taken]
      exact ⟨_, rfl⟩
  rw [makeOrFindDirectory, outcome_tryCatch, refused]
  dsimp only
  rw [outcome_bind, outcome_get]
  dsimp only
  rw [if_pos isDir, outcome_pure]

theorem outcome_ensureDirectory_of_isDirectory (isDir : d.isDirectory p = true) :
    outcome (ensureDirectory p) d = (.ok (), d) := by
  rw [ensureDirectory, makeDirectories]
  split
  · rfl
  · rw [outcome_tryCatch, outcome_makeOrFindDirectory_of_isDirectory isDir]

theorem isDirectory_of_makeOrFindDirectory (sound : d.WellFormed)
    (made : outcome (makeOrFindDirectory p) d = (.ok (), d')) :
    d'.isDirectory (withoutEndSlashes p) = true := by
  rw [makeOrFindDirectory, outcome_tryCatch] at made
  split at made
  · -- the directory is new
    rename_i t new
    rw [outcome_makeDirectory] at new
    split at new
    · cases new
    rename_i at_ led
    split at new
    · cases new
    rename_i free
    obtain rfl : d.put at_ (.directory directoryMode) = d' := by
      rw [Prod.mk.injEq] at new made
      exact new.2.trans made.2
    have empty : d.entryAt at_ = none := by simpa using free
    have grows := grows_new sound led empty
    have led' : d.place true (withoutEndSlashes p) = .ok at_ := by
      refine place_true_of_notLink led fun t entry => ?_
      rw [empty] at entry
      cases entry
    have notRoot : at_ ≠ [] := by
      rintro rfl
      cases empty
    exact isDirectory_iff.mpr ⟨at_, grows.place led', isDirectoryAt_of_entryAt (entryAt_put_self notRoot)⟩
  · -- it was there
    rename_i e t refused
    obtain rfl := still_of_makeDirectory refused
    rw [outcome_bind, outcome_get] at made
    dsimp only at made
    split at made
    · rename_i isDir
      cases made
      obtain ⟨at_, led, isDirAt⟩ := isDirectory_iff.mp isDir
      exact isDirectory_iff.mpr ⟨at_, place_withoutEndSlashes led, isDirAt⟩
    · cases made

/-- Where making a directory succeeds there is one. -/
theorem isDirectory_of_ensureDirectory (sound : d.WellFormed) (some : p ≠ "")
    (made : outcome (ensureDirectory p) d = (.ok (), d')) :
    d'.isDirectory (withoutEndSlashes p) = true := by
  rw [ensureDirectory, makeDirectories, if_neg (by simpa using some), outcome_tryCatch] at made
  split at made
  · rename_i t first
    cases made
    exact isDirectory_of_makeOrFindDirectory sound first
  · rename_i e t first
    have soundThen : t.WellFormed := by
      have kept : Grows d (outcome (makeOrFindDirectory p) d).2 := (paving_makeOrFindDirectory p d sound).grows
      rw [first] at kept
      exact kept.sound
    cases e
    case notFound =>
      dsimp only at made
      split at made
      · rename_i parent _
        obtain ⟨_, t', parents, last⟩ := of_outcome_bind_ok made
        have kept : Grows t (outcome (makeDirectories p.length parent) t).2 :=
          (paving_makeDirectories _ _ t soundThen).grows
        rw [parents] at kept
        exact isDirectory_of_makeOrFindDirectory kept.sound last
      · obtain ⟨_, t', failed, _⟩ := of_outcome_bind_ok made
        cases failed
    all_goals cases made

end Disk

end Keyring

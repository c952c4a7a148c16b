import Keyring.Proofs.Disk.Canonical
import Keyring.Proofs.Disk.Files

/-!
# What is in directories that were made

A directory that is new has nothing in it (`IsBare`). Where directories were made on the way that a path
names, the path leads to a new one, unless it has a `..` that comes to lead back to an old one.
-/

namespace Keyring

namespace Path

open Text

variable {p q : Path} {front : List (List Char)} {last : List Char}

/-- The parent of a path with a last name has a last name too, and only segments of the path, unless it
says no more than where the path starts. -/
theorem parent?_cases (whole : p.segments = front ++ [last]) (named : isVoid last = false) :
    parent? p = some "" ∨ parent? p = some "/" ∨ parent? p = some "." ∨
      ∃ q inner l, parent? p = some q ∧ q.segments = inner ++ [l] ∧ isVoid l = false ∧
        ∀ s ∈ q.segments, s ∈ p.segments := by
  rw [parent?_of_segments whole named]
  by_cases alone : front = []
  · rw [if_pos alone]
    exact .inl rfl
  rw [if_neg alone, ofSegments]
  have ofPath : ∀ segment ∈ trimSegments front, segment ∈ p.segments := by
    intro segment member
    rw [whole]
    exact List.mem_append_left _ (mem_of_mem_trimSegments member)
  have plain : ∀ segment ∈ trimSegments front, ∀ c ∈ segment, decide (c = '/') = false := by
    intro segment member c inside
    exact (mem_of_mem_pieces (ofPath segment member) c inside).2
  have segments : Path.segments (String.ofList (joined (trimSegments front))) = trimSegments front := by
    rw [Path.segments, String.toList_ofList]
    exact pieces_joined (trimSegments_ne_nil alone) plain
  have kept : ∀ inner l, trimSegments front = inner ++ [l] → isVoid l = false →
      ∃ (q : Path) (inner : List (List Char)) (l : List Char),
        some (String.ofList (joined (trimSegments front))) = some q ∧
        q.segments = inner ++ [l] ∧ isVoid l = false ∧ ∀ s ∈ q.segments, s ∈ p.segments := by
    intro inner l trimmed notVoid
    refine ⟨_, inner, l, rfl, segments.trans trimmed, notVoid, ?_⟩
    intro s member
    rw [segments] at member
    exact ofPath s member
  split
  · exact .inr (.inl rfl)
  · rename_i notRoot
    obtain ⟨first, rest, rfl, trimmed⟩ | ⟨inner, l, trimmed, notVoid⟩ := trimSegments_ends alone
    · by_cases void : isVoid first = true
      · rcases (by simpa [isVoid] using void : first = [] ∨ first = ['.']) with rfl | rfl
        · have absolute : isAbsolute p = true := isAbsolute_of_segments (by simp) whole
          exact absurd ⟨absolute, trimmed⟩ notRoot
        · rw [trimmed]
          exact .inr (.inr (.inl rfl))
      · exact .inr (.inr (.inr (kept [] first trimmed (by simpa using void))))
    · exact .inr (.inr (.inr (kept inner l trimmed notVoid)))

end Path

namespace Disk

variable {d d' : Disk} {p vault : Path} {at_ : Place} {front : List (List Char)} {last : List Char}

/-- The path leads to a place below which there is nothing. -/
def IsBare (d : Disk) (p : Path) : Prop :=
  ∃ at_, d.place true p = .ok at_ ∧ ∀ below, below ≠ [] → d.entryAt (at_ ++ below) = none

theorem WellFormed.nothing_below (sound : d.WellFormed) (free : d.entryAt at_ = none) (below : Place) :
    d.entryAt (at_ ++ below) = none := by
  induction below using List.reverseRecOn with
  | nil => simpa using free
  | append_singleton below name ih =>
    cases found : d.entryAt (at_ ++ (below ++ [name])) with
    | none => rfl
    | some e =>
      rw [← List.append_assoc] at found
      obtain ⟨mode, entry⟩ := isDirectoryAt_iff.mp (sound.isDirectoryAt_of_child found)
      rw [ih] at entry
      cases entry

theorem IsBare.not_exists {name : String} (bare : d.IsBare p) (isName : IsName name)
    (faultless : pathFault? p = none) : d.exists_ (p.join name) = false := by
  obtain ⟨at_, led, nothing⟩ := bare
  rw [Bool.eq_false_iff]
  intro there
  obtain ⟨goal, e, led', entry⟩ := exists_iff.mp there
  obtain ⟨at', led'', _, goalIs⟩ := place_of_join isName led' faultless
  rw [led] at led''
  cases led''
  have free : d.entryAt (at_ ++ [name]) = none := nothing [name] (List.cons_ne_nil name [])
  have reached : goal = at_ ++ [name] := by
    apply goalIs
    intro t link
    rw [free] at link
    cases link
  rw [reached, free] at entry
  cases entry

theorem outcome_makeOrFindDirectory_of_missing (missing : d.isDirectory p = false) :
    outcome (makeOrFindDirectory p) d = outcome (makeDirectory p) d := by
  rw [makeOrFindDirectory, outcome_tryCatch]
  rcases run : outcome (makeDirectory p) d with ⟨e | u, d₁⟩
  · obtain rfl := still_of_makeDirectory run
    dsimp only
    rw [outcome_bind, outcome_get]
    dsimp only
    rw [missing]
    rfl
  · rfl

theorem bare_of_makeDirectory (sound : d.WellFormed) (made : outcome (makeDirectory p) d = (.ok (), d')) :
    d'.IsBare (withoutEndSlashes p) := by
  rw [outcome_makeDirectory] at made
  split at made
  · cases made
  rename_i at_ led
  by_cases taken : (d.entryAt at_).isSome = true
  · rw [if_pos taken] at made
    cases made
  · rw [if_neg taken] at made
    cases made
    have free : d.entryAt at_ = none := by simpa using taken
    have notRoot : at_ ≠ [] := by
      rintro rfl
      cases free
    refine ⟨at_, (grows_new sound led free).place (place_true_of_notLink led (by simp [free])), ?_⟩
    intro below some
    rw [entryAt_put_of_ne notRoot (by simpa using some)]
    exact sound.nothing_below free below

/-! ## Directories on the way -/

/-- Nothing is made where there is a directory, and nothing for the empty path. -/
theorem eq_of_makeDirectories {fuel : Nat} (there : p = "" ∨ d.isDirectory p = true)
    (made : outcome (makeDirectories fuel p) d = (.ok (), d')) : d' = d := by
  cases fuel with
  | zero => cases made
  | succ fuel =>
    rw [makeDirectories] at made
    by_cases empty : p.isEmpty = true
    · rw [if_pos empty] at made
      cases made
      rfl
    · have isDir : d.isDirectory p = true := by
        apply there.resolve_left
        rintro rfl
        exact empty rfl
      rw [if_neg empty, outcome_tryCatch, outcome_makeOrFindDirectory_of_isDirectory isDir] at made
      cases made
      rfl

/-- The directory that relative paths start from is there or cannot be made. -/
theorem isDirectory_of_makeDirectories_here {fuel : Nat}
    (made : outcome (makeDirectories fuel ".") d = (.ok (), d')) : d.isDirectory "." = true := by
  by_contra notDir
  have missing : d.isDirectory "." = false := by simpa using notDir
  obtain ⟨e, refused⟩ : ∃ e, outcome (makeOrFindDirectory ".") d = (.error e, d) := by
    rw [outcome_makeOrFindDirectory_of_missing missing, outcome_makeDirectory,
      withoutEndSlashes_of_noSlash (by decide)]
    cases led : d.place false "." with
    | error e => exact ⟨e, rfl⟩
    | ok at_ =>
      obtain ⟨faultless, left, leads⟩ := place_eq_ok_iff.mp led
      obtain ⟨isDir, rfl, rfl⟩ := (leads_void_iff (.inr rfl)).mp leads
      have found : d.place true "." = .ok (startOf d.workingPlace ".") :=
        place_eq_ok_iff.mpr ⟨faultless, _, (leads_void_iff (.inr rfl)).mpr ⟨isDir, rfl, rfl⟩⟩
      exact absurd (isDirectory_iff.mpr ⟨_, found, isDir⟩) notDir
  cases fuel with
  | zero => cases made
  | succ fuel =>
    rw [makeDirectories, if_neg (by decide), outcome_tryCatch, refused] at made
    cases e
    case notFound =>
      have parent : Path.parent? "." = some "" := by decide
      dsimp only at made
      rw [parent] at made
      obtain ⟨_, d₁, parents, again⟩ := of_outcome_bind_ok made
      obtain rfl := eq_of_makeDirectories (.inl rfl) parents
      rw [refused] at again
      cases again
    all_goals cases made

/-- Nothing is in a bare directory, so a path with a last name does not lead on from there. -/
theorem missing_of_bare_parent {q : Path} (whole : p.segments = front ++ [last]) (named : Path.isVoid last = false)
    (notUp : last ≠ ['.', '.']) (found : Path.parent? p = some q) (bare : d.IsBare (withoutEndSlashes q)) :
    d.isDirectory p = false := by
  rw [Bool.eq_false_iff]
  intro isDir
  obtain ⟨goal, led, there⟩ := isDirectory_iff.mp isDir
  obtain ⟨at_, ledParent, nothing⟩ := bare
  obtain ⟨mid, parent, _, reached⟩ := place_in_parent whole named notUp led
  rw [found, Option.getD_some] at parent
  have same : at_ = mid := by
    rcases parent with rfl | parent
    · obtain ⟨faultless, _⟩ := place_eq_ok_iff.mp ledParent
      cases faultless
    · rw [place_withoutEndSlashes parent] at ledParent
      exact (Except.ok.inj ledParent).symm
  have free : d.entryAt (mid ++ [String.ofList last]) = none := by
    rw [← same]
    exact nothing _ (List.cons_ne_nil _ _)
  rcases reached with rfl | ⟨_, t, link⟩
  · obtain ⟨mode, entry⟩ := isDirectoryAt_iff.mp there
    rw [free] at entry
    cases entry
  · rw [free] at link
    cases link

/-- A directory made with those on the way is bare, if the path has no `..`: then it cannot lead to an old
directory once those are there. -/
theorem bare_of_makeDirectories {fuel : Nat} (sound : d.WellFormed) (whole : p.segments = front ++ [last])
    (named : Path.isVoid last = false) (noUp : ['.', '.'] ∉ p.segments) (missing : d.isDirectory p = false)
    (made : outcome (makeDirectories fuel p) d = (.ok (), d')) : d'.IsBare (withoutEndSlashes p) := by
  induction fuel generalizing p d' front last with
  | zero => cases made
  | succ fuel ih =>
    have some : p ≠ "" := by
      rintro rfl
      obtain ⟨_, same⟩ := List.append_inj' (show [] ++ [[]] = front ++ [last] from whole) rfl
      obtain rfl := (List.cons_eq_cons.mp same).1
      cases named
    have notUp : last ≠ ['.', '.'] := by
      rintro rfl
      exact noUp (by simp [whole])
    rw [makeDirectories, if_neg (by simpa using some), outcome_tryCatch,
      outcome_makeOrFindDirectory_of_missing missing] at made
    rcases first : outcome (makeDirectory p) d with ⟨e | u, d₁⟩
    · obtain rfl := still_of_makeDirectory first
      rw [first] at made
      cases e
      case notFound =>
        dsimp only at made
        cases found : Path.parent? p with
        | none =>
          rw [found] at made
          obtain ⟨_, _, failed, _⟩ := of_outcome_bind_ok made
          cases failed
        | some q =>
          rw [found] at made
          obtain ⟨_, d₂, parents, last⟩ := of_outcome_bind_ok made
          have stillMissing : d₂.isDirectory p = false := by
            -- either nothing was made on the way, or the parent is new
            by_cases there : q = "" ∨ d₁.isDirectory q = true
            · rw [eq_of_makeDirectories there parents]
              exact missing
            · obtain ⟨notEmpty, notDir⟩ := not_or.mp there
              have missingParent : d₁.isDirectory q = false := by simpa using notDir
              rcases Path.parent?_cases whole named with empty | root | here | ⟨q', inner, l, isParent, segments, notVoid, ofPath⟩
              · exact absurd (Option.some.inj (found.symm.trans empty)) notEmpty
              · obtain rfl := Option.some.inj (found.symm.trans root)
                exact absurd (isDirectory_iff.mpr ⟨[], place_root, rfl⟩) notDir
              · obtain rfl := Option.some.inj (found.symm.trans here)
                exact absurd (isDirectory_of_makeDirectories_here parents) notDir
              · obtain rfl := Option.some.inj (found.symm.trans isParent)
                have bare := ih segments notVoid (fun up => noUp (ofPath _ up)) missingParent parents
                exact missing_of_bare_parent whole named notUp found bare
          have grows : Grows d₁ (outcome (makeDirectories fuel q) d₁).2 := (paving_makeDirectories _ _ _ sound).grows
          rw [parents] at grows
          rw [outcome_makeOrFindDirectory_of_missing stillMissing] at last
          exact bare_of_makeDirectory grows.sound last
      all_goals cases made
    · rw [first] at made
      cases made
      exact bare_of_makeDirectory sound first

/-- What was found on a disk is found once it has grown. -/
theorem Grows.exists_ (grows : Grows d d') (there : d.exists_ p = true) : d'.exists_ p = true := by
  obtain ⟨at_, e, led, entry⟩ := exists_iff.mp there
  have stays : ∃ e', d'.entryAt at_ = some e' := by
    cases e with
    | file => exact ⟨_, (grows.files at_ not_false _ rfl).mpr entry⟩
    | directory =>
      obtain ⟨mode, entry'⟩ := isDirectoryAt_iff.mp (grows.directories at_ (isDirectoryAt_of_entryAt entry))
      exact ⟨_, entry'⟩
    | link target => exact ⟨_, (grows.links at_ target).mpr entry⟩
  obtain ⟨e', entry'⟩ := stays
  exact exists_iff.mpr ⟨at_, e', grows.place led, entry'⟩

/-- With other permissions of a directory the same is found as before. -/
theorem grows_from_setMode {mode : Nat} (sound : d.WellFormed) (isDir : d.isDirectory p = true) :
    Grows (outcome (setMode p mode) d).2 d := by
  obtain ⟨at_, led, there⟩ := isDirectory_iff.mp isDir
  obtain ⟨before, entry⟩ := isDirectoryAt_iff.mp there
  rw [outcome_setMode sound, find_eq_ok_iff.mpr ⟨led, entry⟩]
  dsimp only [withMode]
  split
  · exact .refl sound
  · rename_i notRoot
    have grows : Grows d (d.put at_ (.directory (mode % 0o10000))) := by
      refine Grows.putDirectory sound (sound.fits at_ _ entry notRoot) ?_
      intro e found
      rw [entry] at found
      cases found
      rfl
    refine ⟨sound, rfl, ?_, fun here t => (grows.links here t).symm, ?_⟩
    · intro here isDirHere
      by_cases same : here = at_
      · rwa [same]
      · obtain ⟨m, found⟩ := isDirectoryAt_iff.mp isDirHere
        rw [entryAt_put_of_ne notRoot same] at found
        exact isDirectoryAt_of_entryAt found
    · exact fun here free e isFile => (grows.files here free e isFile).symm

end Disk

end Keyring

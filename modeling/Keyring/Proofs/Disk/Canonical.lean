import Keyring.Proofs.Disk.Directories
import Keyring.Proofs.Path.Parent

/-!
# Parents and canonical paths

What leads to a file has a last name, and its parent is a directory. The path of
a place, without links, leads back to that place.
-/

namespace Keyring.Disk

variable {d : Disk} {through : Bool} {p : Path} {at_ goal : Place} {e : Entry}

/-- A path can name a file if its last segment is a name. -/
theorem checkFileName_eq_ok_iff : checkFileName p = .ok () ↔ ∃ front last,
    p.segments = front ++ [last] ∧ Path.isVoid last = false ∧ last ≠ ['.', '.'] := by
  obtain ⟨front, last, whole⟩ := Path.exists_last_segment p
  have lasts : p.segments.getLast?.getD [] = last := by rw [whole]; simp
  constructor
  · intro named
    simp only [checkFileName] at named
    split at named
    · cases named
    split at named
    · cases named
    split at named
    · cases named
    rename_i _ notSpecial noSlash
    rw [withoutEndSlashes_of_noSlash noSlash, lasts, not_or, not_or] at notSpecial
    exact ⟨front, last, whole, by simp [Path.isVoid, notSpecial], notSpecial.2.2⟩
  · rintro ⟨front', last', whole', named, notUp⟩
    obtain ⟨rfl, same⟩ := List.append_inj' (whole.symm.trans whole') rfl
    obtain rfl := (List.cons_eq_cons.mp same).1
    have noSlash : p.toList.getLast? ≠ some '/' := by
      intro slash
      obtain ⟨front', whole'⟩ := Path.segments_of_slash slash
      obtain ⟨_, same⟩ := List.append_inj' (whole.symm.trans whole') rfl
      obtain rfl := (List.cons_eq_cons.mp same).1
      cases named
    have some : p ≠ "" := by
      rintro rfl
      obtain rfl : [] = last := lasts
      cases named
    simp only [Path.isVoid, Bool.or_eq_false_iff, decide_eq_false_iff_not] at named
    simp only [checkFileName]
    rw [withoutEndSlashes_of_noSlash noSlash, lasts, if_neg (by simpa using some)]
    simp [named, notUp, noSlash]

theorem checkFileName_of_names {front : List String} {name : String} (names : Path.names p = front ++ [name])
    (some : name ≠ "") (notHere : name ≠ ".") (notUp : name ≠ "..") : checkFileName p = .ok () := by
  obtain ⟨front', last, whole⟩ := Path.exists_last_segment p
  rw [Path.names, whole, List.map_append] at names
  obtain ⟨_, same⟩ := List.append_inj' names rfl
  obtain rfl : String.ofList last = name := (List.cons_eq_cons.mp same).1
  refine checkFileName_eq_ok_iff.mpr ⟨front', last, whole, ?_, ?_⟩
  · rw [Path.isVoid, Bool.or_eq_false_iff, decide_eq_false_iff_not, decide_eq_false_iff_not]
    exact ⟨fun h => some (by rw [h]), fun h => notHere (by rw [h])⟩
  · exact fun h => notUp (by rw [h])

theorem checkFileName_of_notDirectory (sound : d.WellFormed) (led : d.place through p = .ok at_)
    (notDir : d.isDirectoryAt at_ = false) : checkFileName p = .ok () := by
  obtain ⟨_, left, leads⟩ := place_eq_ok_iff.mp led
  obtain ⟨front, last, whole⟩ := Path.exists_last_segment p
  rw [Path.names, whole, List.map_append] at leads
  obtain ⟨k, mid, _, final⟩ := (leads_append_iff (by simp)).mp leads
  have isDir := final.isDirectoryAt_start (by simp)
  refine checkFileName_eq_ok_iff.mpr ⟨front, last, whole, ?_, ?_⟩
  · rw [Bool.eq_false_iff]
    intro void
    have void' : String.ofList last = "" ∨ String.ofList last = "." := by
      rcases (by simpa [Path.isVoid] using void : last = [] ∨ last = ['.']) with rfl | rfl
      · exact .inl rfl
      · exact .inr rfl
    obtain ⟨_, _, rfl⟩ := (leads_void_iff void').mp final
    rw [isDir] at notDir
    cases notDir
  · rintro rfl
    cases final with
    | void _ void => exact absurd void (by decide)
    | up isDir leads =>
      cases leads
      rw [sound.isDirectoryAt_dropLast isDir] at notDir
      cases notDir
    | down _ isStep => exact absurd rfl isStep.notUp
    | halt _ isStep => exact absurd rfl isStep.notUp
    | follow _ isStep => exact absurd rfl isStep.notUp

theorem checkFileName_of_file (sound : d.WellFormed) (found : d.find through p = .ok (at_, e))
    (isFile : e.isFile = true) : checkFileName p = .ok () := by
  obtain ⟨led, entry⟩ := find_eq_ok_iff.mp found
  exact checkFileName_of_notDirectory sound led (isDirectoryAt_of_file entry isFile)

/-- The last name of a path is looked up in a directory: there it leads, unless it is a link that is
followed. -/
theorem Leads.last {links left : Nat} {xs : List String} {name : String} (some : name ≠ "")
    (notHere : name ≠ ".") (notUp : name ≠ "..") (leads : Leads d through links at_ (xs ++ [name]) left goal) :
    ∃ k mid, Leads d true links at_ xs k mid ∧ d.isDirectoryAt mid = true ∧ IsStep name ∧
      (goal = mid ++ [name] ∨ through = true ∧ ∃ t, d.entryAt (mid ++ [name]) = .some (.link t)) := by
  obtain ⟨k, mid, first, final⟩ := (leads_append_iff (by simp)).mp leads
  refine ⟨k, mid, first, ?_⟩
  cases final with
  | void _ void => exact absurd void (not_or.mpr ⟨some, notHere⟩)
  | up => exact absurd rfl notUp
  | down isDir isStep _ rest =>
    cases rest
    exact ⟨isDir, isStep, .inl rfl⟩
  | halt isDir isStep => exact ⟨isDir, isStep, .inl rfl⟩
  | follow isDir isStep entry goesOn =>
    exact ⟨isDir, isStep, .inr ⟨goesOn.resolve_left (not_not.mpr rfl), _, entry⟩⟩

theorem place_root : d.place through "/" = .ok [] := by
  refine place_eq_ok_iff.mpr ⟨by decide, mostLinks, ?_⟩
  exact .void rfl (.inl rfl) (.void rfl (.inl rfl) .done)

theorem leads_voids {links left : Nat} {voids : List (List Char)} (void : ∀ v ∈ voids, Path.isVoid v = true)
    (leads : Leads d through links at_ (voids.map String.ofList) left goal) :
    left = links ∧ goal = at_ := by
  induction voids with
  | nil =>
    cases leads
    exact ⟨rfl, rfl⟩
  | cons v voids ih =>
    have void' : String.ofList v = "" ∨ String.ofList v = "." := by
      have isVoid := void v List.mem_cons_self
      rcases (by simpa [Path.isVoid] using isVoid : v = [] ∨ v = ['.']) with rfl | rfl
      · exact .inl rfl
      · exact .inr rfl
    have whole : (v :: voids).map String.ofList = [String.ofList v] ++ voids.map String.ofList := rfl
    rcases voids with _ | ⟨w, voids⟩
    · exact ((leads_void_iff void').mp leads).2
    · rw [whole] at leads
      obtain ⟨k, mid, first, rest⟩ := (leads_append_iff (by simp)).mp leads
      obtain ⟨_, rfl, rfl⟩ := (leads_void_iff void').mp first
      exact ih (fun u member => void u (List.mem_cons_of_mem _ member)) rest

/-- A path with a last name leads from the directory that its parent leads to, or from where it starts if
it has no parent, to that name there, unless it goes on through a link. -/
theorem place_in_parent {front : List (List Char)} {last : List Char} (whole : p.segments = front ++ [last])
    (isNamed : Path.isVoid last = false) (notUp : last ≠ ['.', '.']) (led : d.place through p = .ok goal) :
    ∃ mid, ((Path.parent? p).getD "" = "" ∨ d.place true ((Path.parent? p).getD "") = .ok mid) ∧
      d.isDirectoryAt mid = true ∧ (goal = mid ++ [String.ofList last] ∨
        through = true ∧ ∃ t, d.entryAt (mid ++ [String.ofList last]) = some (.link t)) := by
  obtain ⟨faultless, left, leads⟩ := place_eq_ok_iff.mp led
  have named : ∀ s : List Char, Path.isVoid s = true ∨ s = ['.', '.'] → String.ofList last ≠ String.ofList s := by
    rintro s special same
    obtain rfl : last = s := String.ofList_injective same
    rcases special with void | up
    · rw [isNamed] at void
      cases void
    · exact notUp up
  rw [Path.names, whole, List.map_append] at leads
  obtain ⟨k, mid, first, isDir, -, reached⟩ :=
    leads.last (named [] (.inl rfl)) (named ['.'] (.inl rfl)) (named ['.', '.'] (.inr rfl))
  refine ⟨mid, ?_, isDir, reached⟩
  obtain ⟨rfl, parent⟩ | ⟨parent, found, isParent⟩ := Path.parent?_spec whole isNamed
  · exact .inl (by rw [parent]; rfl)
  · rw [found, Option.getD_some]
    obtain ⟨back, rfl⟩ := Path.front_of_parent? found
    rw [startOf, Path.isAbsolute_append isParent.some, ← startOf] at first
    have faultless' := pathFault?_of_append isParent.some faultless
    obtain ⟨voids, void, rfl | ⟨rfl, rfl⟩⟩ := isParent.segments
    · refine .inr (place_eq_ok_iff.mpr ⟨faultless', ?_⟩)
      rcases voids with _ | ⟨v, voids⟩
      · rw [List.append_nil] at first
        exact ⟨k, first⟩
      · rw [List.map_append] at first
        obtain ⟨k', mid', parents, rest⟩ := (leads_append_iff (by simp)).mp first
        obtain ⟨rfl, rfl⟩ := leads_voids void rest
        exact ⟨_, parents⟩
    · -- from the root, nothing but void names leads on
      have root : (([] :: voids).map String.ofList) = [""] ++ voids.map String.ofList := rfl
      obtain rfl : mid = [] := by
        rcases voids with _ | ⟨v, voids⟩
        · exact ((leads_void_iff (.inl rfl)).mp first).2.2
        · rw [root] at first
          obtain ⟨k', mid', start, rest⟩ := (leads_append_iff (by simp)).mp first
          obtain ⟨_, rfl, rfl⟩ := (leads_void_iff (.inl rfl)).mp start
          exact (leads_voids void rest).2
      exact .inr place_root

/-- Where a path with a last name leads, its parent is a directory. -/
theorem parent_isDirectory (named : checkFileName p = .ok ()) (led : d.place through p = .ok goal) :
    (Path.parent? p).getD "" = "" ∨ d.isDirectory ((Path.parent? p).getD "") = true := by
  obtain ⟨front, last, whole, isNamed, notUp⟩ := checkFileName_eq_ok_iff.mp named
  obtain ⟨mid, parent, isDir, -⟩ := place_in_parent whole isNamed notUp led
  exact parent.imp_right fun led' => isDirectory_iff.mpr ⟨mid, led', isDir⟩

/-! ## Canonical paths -/

theorem join_slashes_append (at_ : Place) (name : String) :
    String.join ((at_ ++ [name]).map ("/" ++ ·)) = String.join (at_.map ("/" ++ ·)) ++ "/" ++ name := by
  simp [String.join_append, String.append_assoc]

theorem names_join_slashes (plain : ∀ name ∈ at_, '/' ∉ name.toList) :
    Path.names (String.join (at_.map ("/" ++ ·))) = "" :: at_ := by
  induction at_ using List.reverseRecOn with
  | nil => rfl
  | append_singleton at_ name ih =>
    have plain' : ∀ name ∈ at_, '/' ∉ name.toList := fun n member => plain n (by simp [member])
    rw [join_slashes_append, Path.names_append_slash, ih plain', Path.names_of_plain (plain name (by simp))]
    rfl

/-- From the root, the names of a place lead there. -/
theorem WellFormed.leads_of_fits (sound : d.WellFormed) (fits : d.Fits at_)
    (notLink : ∀ t, d.entryAt at_ ≠ some (.link t)) (links : Nat) :
    Leads d through links [] at_ links at_ := by
  induction at_ using List.reverseRecOn generalizing through with
  | nil => exact .done
  | append_singleton parent name ih =>
    obtain ⟨isDir, named⟩ := fits_append_iff.mp fits
    have last : Leads d through links parent [name] links (parent ++ [name]) :=
      (Leads.name_iff named.isStep notLink).mpr ⟨isDir, rfl, rfl⟩
    refine (leads_append_iff (by simp)).mpr ⟨links, parent, ?_, last⟩
    rcases sound.fits_of_isDirectoryAt isDir with rfl | fits
    · exact .done
    · refine ih fits fun t entry => ?_
      cases isDirectory_of_isDirectoryAt isDir entry

theorem clean_names (sound : d.WellFormed) (fits : d.Fits at_) : ∀ name ∈ at_, Clean name := by
  induction at_ using List.reverseRecOn with
  | nil => simp
  | append_singleton parent name ih =>
    obtain ⟨isDir, named⟩ := fits_append_iff.mp fits
    intro n member
    rcases List.mem_append.mp member with member | member
    · rcases sound.fits_of_isDirectoryAt isDir with rfl | fits
      · cases member
      · exact ih fits n member
    · rw [List.mem_singleton.mp member]
      exact ⟨named.plain, named.noNul⟩

theorem place_pathOf (sound : d.WellFormed) (fits : d.Fits at_)
    (notLink : ∀ t, d.entryAt at_ ≠ some (.link t)) (faultless : pathFault? (pathOf at_) = none) :
    d.place through (pathOf at_) = .ok at_ := by
  refine place_eq_ok_iff.mpr ⟨faultless, mostLinks, ?_⟩
  have plain : ∀ name ∈ at_, '/' ∉ name.toList := fun name member => (clean_names sound fits name member).1
  have absolute : Path.isAbsolute (pathOf at_) = true := by
    rw [pathOf, if_neg fits.ne_nil]
    obtain ⟨first, rest, rfl⟩ := List.exists_cons_of_ne_nil fits.ne_nil
    simp [Path.isAbsolute]
  rw [startOf, if_pos absolute, pathOf, if_neg fits.ne_nil, names_join_slashes plain]
  exact .void rfl (.inl rfl) (sound.leads_of_fits fits notLink mostLinks)

/-- The path of a place that can hold an entry has its last name. -/
theorem checkFileName_pathOf (sound : d.WellFormed) (fits : d.Fits at_) :
    checkFileName (pathOf at_) = .ok () := by
  have plain : ∀ name ∈ at_, '/' ∉ name.toList := fun name member => (clean_names sound fits name member).1
  obtain ⟨parent, name, rfl, _, named⟩ := fits.named
  have names := names_join_slashes plain
  rw [← List.cons_append] at names
  rw [pathOf, if_neg (by simp)]
  exact checkFileName_of_names names named.some named.notHere named.notUp

theorem faultless_pathOf {at_ : Place} (sound : d.WellFormed) (fits : d.Fits at_)
    (short : Text.utf8Length (pathOf at_) ≤ longestPath) : pathFault? (pathOf at_) = none := by
  have clean := clean_names sound fits
  rw [pathOf, if_neg fits.ne_nil] at short ⊢
  have noNul : ¬(String.join (at_.map ("/" ++ ·))).toList.contains '\x00' = true := by
    rw [List.contains_iff_mem, String.toList_join, List.mem_flatMap]
    rintro ⟨part, member, nul⟩
    obtain ⟨name, inside, rfl⟩ := List.mem_map.mp member
    rw [String.toList_append, List.mem_append] at nul
    rcases nul with nul | nul
    · exact absurd nul (by decide)
    · exact (clean name inside).2 nul
  have some : ¬(String.join (at_.map ("/" ++ ·))).isEmpty = true := by
    obtain ⟨first, rest, rfl⟩ := List.exists_cons_of_ne_nil fits.ne_nil
    simp
  rw [pathFault?, if_neg noNul, if_neg some, if_neg (by omega)]

/-- The path of a place that a path leads to leads there as well, if it is none too long. -/
theorem place_canonical {goal : Place} (sound : d.WellFormed) (led : d.place true p = .ok goal)
    (faultless : pathFault? (pathOf goal) = none) {through : Bool} : d.place through (pathOf goal) = .ok goal := by
  rcases sound.fits_of_place led with rfl | fits
  · exact place_root
  · exact place_pathOf sound fits (sound.notLink_of_place led) faultless

theorem canonical_eq_ok_iff {q : Path} :
    d.canonical p = .ok q ↔ ∃ at_ e, d.find true p = .ok (at_, e) ∧ q = pathOf at_ := by
  rw [canonical]
  rcases d.find true p with e | ⟨at_, e⟩
  · simp [bind, Except.bind]
  · simp only [bind, Except.bind, pure, Except.pure, Except.ok.injEq, Prod.mk.injEq]
    constructor
    · rintro rfl
      exact ⟨at_, e, ⟨rfl, rfl⟩, rfl⟩
    · rintro ⟨_, _, ⟨rfl, rfl⟩, rfl⟩
      rfl

theorem canonical_eq_error_iff {e : FileError} : d.canonical p = .error e ↔ d.find true p = .error e := by
  rw [canonical]
  rcases d.find true p with e' | there
  · simp [bind, Except.bind]
  · simp [bind, Except.bind, pure, Except.pure]

end Keyring.Disk

import Keyring.Proofs.Path.Segments

/-!
# The parent of a path

A path with a last name is its parent, then segments that name nothing, then
that name.
-/

namespace Keyring

namespace Text

/-- Pieces with slashes between them. -/
def joined (segments : List (List Char)) : List Char := ['/'].intercalate segments

theorem joined_single (segment : List Char) : joined [segment] = segment := by
  simp [joined, List.intercalate]

theorem joined_cons (first : List Char) {more : List (List Char)} (some : more ≠ []) :
    joined (first :: more) = first ++ '/' :: joined more := by
  rcases more with _ | ⟨second, more⟩
  · exact absurd rfl some
  · rfl

theorem joined_append {front back : List (List Char)} (some : front ≠ []) (more : back ≠ []) :
    joined (front ++ back) = joined front ++ '/' :: joined back := by
  induction front with
  | nil => exact absurd rfl some
  | cons first front ih =>
    rcases front with _ | ⟨second, front⟩
    · rw [joined_single]
      exact joined_cons first more
    · rw [List.cons_append, joined_cons first (by simp), ih (by simp), joined_cons first (by simp),
        List.append_assoc, List.cons_append]

theorem front_joined {front row : List (List Char)} (isFront : front <+: row) (some : front ≠ []) :
    joined front <+: joined row := by
  obtain ⟨back, rfl⟩ := isFront
  by_cases alone : back = []
  · refine ⟨[], ?_⟩
    rw [alone, List.append_nil, List.append_nil]
  · exact ⟨'/' :: joined back, (joined_append some alone).symm⟩

theorem joined_pieces (cs : List Char) : joined (pieces (· = '/') cs) = cs := by
  induction cs with
  | nil => rfl
  | cons c rest ih =>
    have some : pieces (· = '/') rest ≠ [] := pieces_ne_nil rest
    by_cases slash : c = '/'
    · subst slash
      have cut : pieces (· = '/') ('/' :: rest) = [] :: pieces (· = '/') rest := by simp [pieces]
      rw [cut, joined_cons [] some, ih]
      rfl
    · obtain ⟨piece, more, tail⟩ := List.exists_cons_of_ne_nil some
      rw [tail] at ih
      rw [pieces_cons_of_not (by simpa using slash) tail]
      rcases more with _ | ⟨second, more⟩
      · exact congrArg (c :: ·) ih
      · rw [joined_cons _ (by simp)] at ih ⊢
        exact congrArg (c :: ·) ih

theorem pieces_joined {segments : List (List Char)} (some : segments ≠ [])
    (plain : ∀ segment ∈ segments, ∀ c ∈ segment, decide (c = '/') = false) :
    pieces (· = '/') (joined segments) = segments := by
  induction segments with
  | nil => exact absurd rfl some
  | cons first rest ih =>
    have single := pieces_of_forall (plain first List.mem_cons_self)
    rcases rest with _ | ⟨second, rest⟩
    · rw [joined_single]
      exact single
    · rw [joined_cons first (by simp), pieces_append (by simp), single,
        ih (by simp) fun segment member => plain segment (List.mem_cons_of_mem _ member)]
      rfl

end Text

namespace Path

open Text

variable {p : Path} {front : List (List Char)} {last : List Char}

/-- Void segments at the end of a row are trimmed, save the first. -/
theorem trimSegments_spec (first : List Char) (rest : List (List Char)) :
    ∃ kept voids, rest = kept ++ voids ∧ trimSegments (first :: rest) = first :: kept ∧
      ∀ v ∈ voids, isVoid v = true := by
  refine ⟨(rest.reverse.dropWhile isVoid).reverse, (rest.reverse.takeWhile isVoid).reverse, ?_, rfl, ?_⟩
  · rw [← List.reverse_append, List.takeWhile_append_dropWhile, List.reverse_reverse]
  · intro v member
    exact List.all_eq_true.mp List.all_takeWhile v (List.mem_reverse.mp member)

/-- Nothing is trimmed behind a segment that names something. -/
theorem trimSegments_of_last {front : List (List Char)} {last : List Char} (named : isVoid last = false) :
    trimSegments (front ++ [last]) = front ++ [last] := by
  rcases front with _ | ⟨first, rest⟩
  · rfl
  · show first :: ((rest ++ [last]).reverse.dropWhile isVoid).reverse = _
    simp [named]

theorem isAbsolute_of_segments {p : Path} {more : List (List Char)} (some : more ≠ [])
    (segments : p.segments = [] :: more) : isAbsolute p = true := by
  have chars : p.toList = '/' :: joined more := by
    rw [← joined_pieces p.toList]
    show joined p.segments = _
    rw [segments, joined_cons [] some]
    rfl
  rw [isAbsolute, chars]
  rfl

/-- What is left of a row is one segment, or it ends with one that names something. -/
theorem trimSegments_ends {segments : List (List Char)} (nonempty : segments ≠ []) :
    (∃ first rest, segments = first :: rest ∧ trimSegments segments = [first]) ∨
      ∃ front last, trimSegments segments = front ++ [last] ∧ isVoid last = false := by
  obtain ⟨first, rest, rfl⟩ := List.exists_cons_of_ne_nil nonempty
  rcases left : rest.reverse.dropWhile isVoid with _ | ⟨last, more⟩
  · refine .inl ⟨first, rest, rfl, ?_⟩
    rw [trimSegments, left]
    rfl
  · refine .inr ⟨first :: more.reverse, last, ?_, ?_⟩
    · rw [trimSegments, left]
      simp
    · have some : rest.reverse.dropWhile isVoid ≠ [] := by simp [left]
      have notVoid := List.head_dropWhile_not isVoid some
      simpa [left] using notVoid

theorem trimSegments_ne_nil {segments : List (List Char)} (some : segments ≠ []) :
    trimSegments segments ≠ [] := by
  obtain ⟨first, rest, rfl⟩ := List.exists_cons_of_ne_nil some
  simp [trimSegments]

theorem front_trimSegments (segments : List (List Char)) : trimSegments segments <+: segments := by
  rcases segments with _ | ⟨first, rest⟩
  · exact List.prefix_rfl
  · obtain ⟨kept, voids, rfl, trimmed, -⟩ := trimSegments_spec first rest
    exact ⟨voids, by rw [trimmed, List.cons_append]⟩

theorem mem_of_mem_trimSegments {segments : List (List Char)} {segment : List Char}
    (member : segment ∈ trimSegments segments) : segment ∈ segments :=
  (front_trimSegments segments).subset member

theorem isAbsolute_of_single (whole : p.segments = [last]) : isAbsolute p = false := by
  have chars : p.toList = last := by
    rw [← joined_single last, ← whole]
    exact (joined_pieces p.toList).symm
  rw [isAbsolute, chars, decide_eq_false_iff_not]
  intro slash
  have member : last ∈ p.segments := by simp [whole]
  simpa using (mem_of_mem_pieces member '/' (List.mem_of_mem_head? slash)).2

theorem parent?_of_segments (whole : p.segments = front ++ [last]) (named : isVoid last = false) :
    parent? p = some (if front = [] then "" else ofSegments (isAbsolute p) (trimSegments front)) := by
  have notRoot : front ++ [last] ≠ [[]] := by
    intro same
    have lasts := congrArg List.getLast? same
    rw [List.getLast?_concat] at lasts
    obtain rfl : last = [] := Option.some.inj lasts
    cases named
  rw [parent?, whole, trimSegments_of_last named]
  rw [if_neg notRoot]
  rcases front with _ | ⟨first, rest⟩
  · rw [List.nil_append] at whole
    simp [ofSegments, isAbsolute_of_single whole]
  · rw [if_neg (by simp), if_neg (by simp), List.dropLast_concat]

theorem front_of_parent? {q : Path} (found : parent? p = some q) : ∃ back, p = q ++ back := by
  have ofChars : ∀ {front : List Char}, front <+: p.toList → ∃ back, p = String.ofList front ++ back := by
    rintro front ⟨back, whole⟩
    refine ⟨String.ofList back, ?_⟩
    rw [← String.ofList_append, whole, String.ofList_toList]
  have root : isAbsolute p = true → ∃ back, p = "/" ++ back := by
    intro absolute
    have slash : p.toList.head? = .some '/' := by simpa [isAbsolute] using absolute
    have isFront : ['/'] <+: p.toList := by
      rw [← List.cons_head?_tail slash]
      exact ⟨p.toList.tail, rfl⟩
    exact ofChars isFront
  rw [parent?] at found
  split at found
  · cases found
  obtain rfl := Option.some.inj found
  rw [ofSegments]
  split
  · -- nothing is left but a root
    split
    · rename_i onlyRoot
      exact root onlyRoot.1
    · exact ofChars List.nil_prefix
  · rename_i more
    have kept : trimSegments p.segments ≠ [] := trimSegments_ne_nil (pieces_ne_nil p.toList)
    have some : (trimSegments p.segments).dropLast ≠ [] := by
      intro none
      have short := congrArg List.length none
      have long := List.length_pos_iff.mpr kept
      rw [List.length_dropLast, List.length_nil] at short
      omega
    split
    · rename_i onlyRoot
      exact root onlyRoot.1
    · have shorter := List.dropLast_prefix (trimSegments p.segments)
      have isFront := (front_trimSegments _).trans (shorter.trans (front_trimSegments p.segments))
      have chars : joined p.segments = p.toList := joined_pieces p.toList
      exact ofChars (chars ▸ front_joined isFront (trimSegments_ne_nil some))

/-- The path of the segments before a last name, without void ones at their end. -/
structure IsParent (parent : Path) (front : List (List Char)) : Prop where
  some : parent ≠ ""
  segments : ∃ voids, (∀ v ∈ voids, isVoid v = true) ∧ (front = parent.segments ++ voids ∨
    parent = "/" ∧ front = [] :: voids)

/-- The parent of a path with a last name: empty if there is only that name, else a front of it. -/
theorem parent?_spec {p : Path} {front : List (List Char)} {last : List Char}
    (segments : p.segments = front ++ [last]) (named : isVoid last = false) :
    (front = [] ∧ parent? p = some "") ∨ ∃ parent, parent? p = some parent ∧ IsParent parent front := by
  rw [parent?_of_segments segments named]
  rcases front with _ | ⟨first, rest⟩
  · exact .inl ⟨rfl, rfl⟩
  · obtain ⟨kept, voids, whole, trimmed, void⟩ := trimSegments_spec first rest
    have plain : ∀ segment ∈ first :: kept, ∀ c ∈ segment, decide (c = '/') = false := by
      intro segment member c inside
      rw [← trimmed] at member
      have ofPath : segment ∈ p.segments := by
        rw [segments]
        exact List.mem_append_left _ (mem_of_mem_trimSegments member)
      exact (mem_of_mem_pieces ofPath c inside).2
    rw [if_neg (by simp), trimmed, ofSegments]
    refine .inr ⟨_, rfl, ?_⟩
    split
    · -- only the slash in front is left
      rename_i root
      obtain ⟨_, alone⟩ := root
      obtain ⟨rfl, rfl⟩ := List.cons_eq_cons.mp alone
      refine ⟨by decide, voids, void, .inr ⟨rfl, ?_⟩⟩
      rw [whole]
      rfl
    · rename_i notRoot
      refine ⟨?_, voids, void, .inl ?_⟩
      · intro empty
        have nothing : joined (first :: kept) = [] := by
          have chars := congrArg String.toList empty
          rwa [String.toList_ofList] at chars
        rcases kept with _ | ⟨second, kept⟩
        · obtain rfl : first = [] := (joined_single first).symm.trans nothing
          have more : rest ++ [last] ≠ [] := by simp
          have absolute : isAbsolute p = true := isAbsolute_of_segments more segments
          exact notRoot ⟨absolute, rfl⟩
        · rw [joined_cons first (by simp)] at nothing
          simp at nothing
      · show first :: rest = pieces (· = '/') (String.ofList (joined (first :: kept))).toList ++ voids
        rw [String.toList_ofList, pieces_joined (by simp) plain, whole]
        rfl

theorem plain_of_fileName? {p : Path} {name : String} (found : fileName? p = some name) :
    '/' ∉ name.toList := by
  rw [fileName?] at found
  rcases last : (trimSegments p.segments).getLast? with _ | segment
  · rw [last] at found
    cases found
  · rw [last] at found
    dsimp only at found
    split at found
    · cases found
    · cases found
      have member : segment ∈ p.segments := mem_of_mem_trimSegments (List.mem_of_getLast? last)
      rw [String.toList_ofList]
      intro slash
      simpa using (mem_of_mem_pieces member '/' slash).2

/-- A name put after segments that were trimmed has these as its parent. -/
theorem parent?_join_row {row : List (List Char)} {name : String} (some : row ≠ [])
    (plain : ∀ segment ∈ row, ∀ c ∈ segment, decide (c = '/') = false) (trimmed : trimSegments row = row)
    (ends : row.getLast? ≠ .some []) (plainName : '/' ∉ name.toList) (isNamed : isVoid name.toList = false) :
    parent? (join (String.ofList (joined row)) name) = .some (String.ofList (joined row)) := by
  have segmentsOf : segments (String.ofList (joined row)) = row := by
    rw [segments, String.toList_ofList, pieces_joined some plain]
  have notEmpty : String.ofList (joined row) ≠ "" := by
    intro empty
    rw [empty] at segmentsOf
    exact ends (by rw [← segmentsOf]; rfl)
  have noSlash : (String.ofList (joined row)).toList.getLast? ≠ .some '/' := by
    intro slash
    obtain ⟨front, whole⟩ := segments_of_slash slash
    rw [segmentsOf] at whole
    exact ends (by rw [whole]; simp)
  have joins : join (String.ofList (joined row)) name = String.ofList (joined row) ++ "/" ++ name := by
    rw [join, isAbsolute_of_plain plainName, if_neg (by simp), if_neg]
    rintro (empty | slash)
    · exact notEmpty (by simpa using empty)
    · exact noSlash slash
  have notRoot : row ≠ [[]] := by
    rintro rfl
    exact ends rfl
  have whole : segments (join (String.ofList (joined row)) name) = row ++ [name.toList] := by
    rw [joins, segments_append_slash, segmentsOf, segments_of_plain plainName]
  rw [parent?_of_segments whole isNamed, if_neg some, trimmed, ofSegments, if_neg (fun both => notRoot both.2)]
  rfl

theorem parent?_join {q : Path} {name : String} (whole : p.segments = front ++ [last])
    (named : isVoid last = false) (found : parent? p = some q) (plain : '/' ∉ name.toList)
    (isNamed : isVoid name.toList = false) : parent? (join q name) = some q := by
  rw [parent?_of_segments whole named] at found
  obtain rfl := Option.some.inj found
  by_cases alone : front = []
  · have itself : join "" name = name := by simp [join, isAbsolute_of_plain plain]
    have single : segments name = [] ++ [name.toList] := segments_of_plain plain
    rw [if_pos alone, itself, parent?_of_segments single isNamed]
    rfl
  rw [if_neg alone, ofSegments]
  have inside : ∀ segment ∈ trimSegments front, ∀ c ∈ segment, decide (c = '/') = false := by
    intro segment member c
    have ofPath : segment ∈ p.segments := by
      rw [whole]
      exact List.mem_append_left _ (mem_of_mem_trimSegments member)
    exact fun here => (mem_of_mem_pieces ofPath c here).2
  split
  · -- only the root is left
    have beside : segments (join "/" name) = [[]] ++ [name.toList] := by
      have joins : join "/" name = "" ++ "/" ++ name := by simp [join, isAbsolute_of_plain plain]
      rw [joins, segments_append_slash, segments_of_plain plain]
      rfl
    have absolute : isAbsolute (join "/" name) = true := isAbsolute_of_segments (by simp) beside
    rw [parent?_of_segments beside isNamed, absolute]
    rfl
  · rename_i notRoot
    rcases trimSegments_ends alone with ⟨first, rest, rfl, trimmed⟩ | ⟨kept, l, trimmed, notVoid⟩
    · rw [trimmed] at inside ⊢
      refine parent?_join_row (by simp) inside rfl ?_ plain isNamed
      rintro ⟨⟩
      exact notRoot ⟨isAbsolute_of_segments (by simp) whole, trimmed⟩
    · rw [trimmed] at inside ⊢
      refine parent?_join_row (by simp) inside (trimSegments_of_last notVoid) ?_ plain isNamed
      rw [List.getLast?_concat]
      rintro ⟨⟩
      cases notVoid

end Path

end Keyring

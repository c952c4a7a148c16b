import Keyring.Text.Blank
import Mathlib.Data.List.DropRight

/-!
# Trimmed texts, pieces and words

A text is trimmed when it neither begins nor ends with a blank, and trimming leaves the
one core of a text that is. The pieces of a text are its runs between separators, those of
two texts with a separator between them the pieces of the one and then of the other; so a
word that a blank follows is what a cut finds first and what comes first among the words.
-/

namespace Keyring.Text

/-- A text with no blank at its two ends. -/
structure IsTrimmed (cs : List Char) : Prop where
  first : ∀ c, cs.head? = some c → isBlank c = false
  last : ∀ c, cs.getLast? = some c → isBlank c = false

/-- A text without a blank. -/
def IsSolid (cs : List Char) : Prop := ∀ c ∈ cs, isBlank c = false

theorem isSolid_of_all {cs : List Char} (all : (cs.all fun c => !isBlank c) = true) : IsSolid cs := by
  intro c member
  simpa using List.all_eq_true.mp all c member

theorem IsSolid.isTrimmed {cs : List Char} (solid : IsSolid cs) : IsTrimmed cs where
  first c is := solid c (List.mem_of_head? is)
  last c is := solid c (List.mem_of_getLast? is)

/-- What stands between two trimmed texts does not matter. -/
theorem IsTrimmed.append {a b : List Char} (first : IsTrimmed a) (between : List Char) (last : IsTrimmed b)
    (aSome : a ≠ []) (bSome : b ≠ []) : IsTrimmed (a ++ (between ++ b)) where
  first c is := first.first c (by rwa [List.head?_append_of_ne_nil a aSome] at is)
  last c is := by
    rw [← List.append_assoc, List.getLast?_append_of_ne_nil _ bSome] at is
    exact last.last c is

/-- What is left of a text when the characters of a kind at its two ends are taken away. -/
structure IsCore (kind : Char → Bool) (core cs : List Char) : Prop where
  placed : ∃ lead trail, cs = lead ++ (core ++ trail) ∧
    (∀ c ∈ lead, kind c = true) ∧ ∀ c ∈ trail, kind c = true
  first : ∀ c, core.head? = some c → kind c = false
  last : ∀ c, core.getLast? = some c → kind c = false

theorem head_dropWhile {kind : Char → Bool} {cs : List Char} {c : Char}
    (is : (cs.dropWhile kind).head? = some c) : kind c = false := by
  have first := List.head?_dropWhile_not kind cs
  rw [is] at first
  exact first

theorem dropWhile_eq_self {kind : Char → Bool} {cs : List Char}
    (first : ∀ c, cs.head? = some c → kind c = false) : cs.dropWhile kind = cs := by
  cases cs with
  | nil => rfl
  | cons c rest => simp [first c rfl]

theorem trimLeft_eq_self {cs : List Char} (first : ∀ c, cs.head? = some c → isBlank c = false) :
    trimLeft cs = cs := dropWhile_eq_self first

/-- Dropping from the front and then from the back leaves the core, which there is one of. -/
theorem dropEnds_eq_iff {kind : Char → Bool} {cs core : List Char} :
    ((cs.dropWhile kind).reverse.dropWhile kind).reverse = core ↔ IsCore kind core cs := by
  constructor
  · rintro rfl
    refine ⟨⟨cs.takeWhile kind, ((cs.dropWhile kind).reverse.takeWhile kind).reverse, ?_, ?_, ?_⟩, ?_, ?_⟩
    · rw [← List.reverse_append, List.takeWhile_append_dropWhile, List.reverse_reverse,
        List.takeWhile_append_dropWhile]
    · exact fun c inside => List.mem_takeWhile_imp inside
    · exact fun c inside => List.mem_takeWhile_imp (List.mem_reverse.mp inside)
    · -- what is cut off at the end leaves the front
      intro c is
      obtain ⟨cut, split⟩ := List.rdropWhile_prefix kind (cs.dropWhile kind)
      have leads : (cs.dropWhile kind).head? = some c := by
        rw [← split, List.head?_append]
        exact Option.or_eq_some_iff.mpr (.inl is)
      exact head_dropWhile leads
    · exact fun c is => head_dropWhile (by rwa [List.getLast?_reverse] at is)
  · rintro ⟨⟨lead, trail, rfl, front, back⟩, first, last⟩
    have back' : ∀ c ∈ trail.reverse, kind c = true := fun c inside => back c (List.mem_reverse.mp inside)
    rw [List.dropWhile_append_of_pos front]
    cases core with
    | nil => simp [List.dropWhile_eq_nil_iff.mpr back]
    | cons c core =>
      have kept : (c :: core).reverse.dropWhile kind = (c :: core).reverse :=
        dropWhile_eq_self fun d is => last d (by rwa [List.head?_reverse] at is)
      rw [List.cons_append, List.dropWhile_cons_of_neg (by simp [first c rfl]), ← List.cons_append,
        List.reverse_append, List.dropWhile_append_of_pos back', kept, List.reverse_reverse]

theorem trim_eq_iff {cs core : List Char} : trim cs = core ↔ IsCore isBlank core cs := dropEnds_eq_iff

theorem IsTrimmed.trim_eq {cs : List Char} (trimmed : IsTrimmed cs) : trim cs = cs :=
  trim_eq_iff.mpr ⟨⟨[], [], by simp, by simp, by simp⟩, trimmed.first, trimmed.last⟩

theorem isTrimmed_trim (cs : List Char) : IsTrimmed (trim cs) :=
  have core := trim_eq_iff.mp rfl
  ⟨core.first, core.last⟩

def IsBlanks (cs : List Char) : Prop := ∀ c ∈ cs, isBlank c = true

theorem isBlanks_cons {c : Char} {rest : List Char} :
    IsBlanks (c :: rest) ↔ isBlank c = true ∧ IsBlanks rest := List.forall_mem_cons

/-- A text is what trimming leaves of it, between blanks. -/
theorem exists_trim (cs : List Char) :
    ∃ lead trail, cs = lead ++ (trim cs ++ trail) ∧ IsBlanks lead ∧ IsBlanks trail :=
  (trim_eq_iff.mp rfl).placed

/-- Blanks around a text do not matter when it is trimmed. -/
theorem trim_append_of_blanks {lead trail : List Char} (front : IsBlanks lead) (back : IsBlanks trail)
    (cs : List Char) : trim (lead ++ (cs ++ trail)) = trim cs := by
  have trimmed := isTrimmed_trim cs
  obtain ⟨before, after, whole, blanks, blanks'⟩ := exists_trim cs
  refine trim_eq_iff.mpr ⟨⟨lead ++ before, after ++ trail, ?_, ?_, ?_⟩, trimmed.first, trimmed.last⟩
  · calc lead ++ (cs ++ trail) = lead ++ (before ++ (trim cs ++ after) ++ trail) := by rw [← whole]
      _ = lead ++ before ++ (trim cs ++ (after ++ trail)) := by simp
  · exact List.forall_mem_append.mpr ⟨front, blanks⟩
  · exact List.forall_mem_append.mpr ⟨blanks', back⟩

theorem isBlanks_of_trim_eq_nil {cs : List Char} (nothing : trim cs = []) : IsBlanks cs := by
  obtain ⟨lead, trail, whole, front, back⟩ := exists_trim cs
  rw [whole, nothing]
  exact List.forall_mem_append.mpr ⟨front, back⟩

/-- Nothing is cut exactly where there is no separator. -/
theorem cut_eq_none_iff {sep : Char → Bool} {cs : List Char} :
    cut sep cs = none ↔ ∀ c ∈ cs, sep c = false := by
  induction cs with
  | nil => simp [cut]
  | cons c more ih => by_cases separates : sep c = true <;> simp [cut, separates, ih]

/-- A cut takes a text apart at its first separator. -/
theorem cut_eq_some_iff {sep : Char → Bool} {cs before after : List Char} :
    cut sep cs = some (before, after) ↔
      ∃ c, cs = before ++ c :: after ∧ (∀ b ∈ before, sep b = false) ∧ sep c = true := by
  induction cs generalizing before with
  | nil => simp [cut]
  | cons c more ih =>
    by_cases separates : sep c = true
    · simp only [cut, separates, ↓reduceIte, Option.some.injEq, Prod.mk.injEq]
      constructor
      · rintro ⟨rfl, rfl⟩
        exact ⟨c, rfl, by simp, separates⟩
      · rintro ⟨d, whole, none_, -⟩
        cases before with
        | nil =>
          cases whole
          exact ⟨rfl, rfl⟩
        | cons b before =>
          cases whole
          exact absurd separates (by simp [none_ c])
    · simp only [cut, separates, Bool.false_eq_true, ↓reduceIte, Option.map_eq_some_iff, Prod.mk.injEq,
        Prod.exists]
      constructor
      · rintro ⟨front, _, tail, rfl, rfl⟩
        obtain ⟨d, rfl, none_, last⟩ := ih.mp tail
        exact ⟨d, rfl, List.forall_mem_cons.mpr ⟨Bool.eq_false_iff.mpr separates, none_⟩, last⟩
      · rintro ⟨d, whole, none_, last⟩
        cases before with
        | nil =>
          cases whole
          exact absurd last separates
        | cons b before =>
          cases whole
          exact ⟨before, after, ih.mpr ⟨d, rfl, (List.forall_mem_cons.mp none_).2, last⟩, rfl, rfl⟩

variable {word rest : List Char} {sep : Char}

theorem cut_eq_none (solid : IsSolid word) : cut isBlank word = none := cut_eq_none_iff.mpr solid

theorem cut_append (solid : IsSolid word) (blank : isBlank sep = true) :
    cut isBlank (word ++ sep :: rest) = some (word, rest) :=
  cut_eq_some_iff.mpr ⟨sep, rfl, solid, blank⟩

theorem isSolid_of_cut_eq_none {cs : List Char} (nothing : cut isBlank cs = none) : IsSolid cs :=
  cut_eq_none_iff.mp nothing

/-- What stands before the first blank has none in it. -/
theorem isSolid_of_cut {cs before after : List Char} (found : cut isBlank cs = some (before, after)) :
    IsSolid before := by
  obtain ⟨_, _, solid, _⟩ := cut_eq_some_iff.mp found
  exact solid

theorem split_of_cut {cs before after : List Char} (found : cut isBlank cs = some (before, after)) :
    ∃ sep, isBlank sep = true ∧ cs = before ++ sep :: after := by
  obtain ⟨sep, whole, _, blank⟩ := cut_eq_some_iff.mp found
  exact ⟨sep, blank, whole⟩

/-! ## Pieces -/

section Pieces

variable {sep : Char → Bool}

attribute [local simp] pieces

theorem pieces_ne_nil (cs : List Char) : pieces sep cs ≠ [] := by
  cases cs with
  | nil => simp
  | cons c rest =>
    rw [pieces]
    split
    · simp
    · split <;> simp

theorem pieces_cons_of_not {c : Char} (other : sep c = false) {cs piece : List Char}
    {more : List (List Char)} (tail : pieces sep cs = piece :: more) :
    pieces sep (c :: cs) = (c :: piece) :: more := by
  rw [pieces, if_neg (by simp [other]), tail]

/-- The pieces of two texts with a separator between them. -/
theorem pieces_append {c : Char} (separates : sep c = true) (front back : List Char) :
    pieces sep (front ++ c :: back) = pieces sep front ++ pieces sep back := by
  induction front with
  | nil => simp [separates]
  | cons a front ih =>
    by_cases separator : sep a = true
    · simp [separator, ih]
    · have some : pieces sep front ≠ [] := pieces_ne_nil front
      obtain ⟨piece, more, tail⟩ := List.exists_cons_of_ne_nil some
      have joined : pieces sep (front ++ c :: back) = piece :: (more ++ pieces sep back) := by
        rw [ih, tail, List.cons_append]
      have other : sep a = false := by simpa using separator
      rw [List.cons_append, pieces_cons_of_not other joined, pieces_cons_of_not other tail,
        List.cons_append]

theorem pieces_of_forall {cs : List Char} (none : ∀ c ∈ cs, sep c = false) : pieces sep cs = [cs] := by
  induction cs with
  | nil => rfl
  | cons c rest ih =>
    exact pieces_cons_of_not (none c (by simp)) (ih fun a member => none a (by simp [member]))

theorem length_pieces_le (cs : List Char) : (pieces sep cs).length ≤ cs.length + 1 := by
  induction cs with
  | nil => simp
  | cons c rest ih =>
    rw [pieces]
    split
    · simpa using ih
    · split
      · simp
      · rename_i piece more tail
        rw [tail] at ih
        simp only [List.length_cons] at ih ⊢
        omega

/-- A piece is made of characters of the text and holds no separator. -/
theorem mem_of_mem_pieces {cs piece : List Char} (member : piece ∈ pieces sep cs) :
    ∀ c ∈ piece, c ∈ cs ∧ sep c = false := by
  induction cs generalizing piece with
  | nil =>
    obtain rfl : piece = [] := by simpa using member
    simp
  | cons a rest ih =>
    rw [pieces] at member
    split at member
    · rcases List.mem_cons.mp member with rfl | member
      · simp
      · exact fun c inside => ⟨by simp [(ih member c inside).1], (ih member c inside).2⟩
    · rename_i other
      split at member
      · obtain rfl : piece = [a] := by simpa using member
        simpa using other
      · rename_i first more tail
        rcases List.mem_cons.mp member with rfl | member
        · intro c inside
          rcases List.mem_cons.mp inside with rfl | inside
          · exact ⟨by simp, by simpa using other⟩
          · have found := ih (tail ▸ List.mem_cons_self) c inside
            exact ⟨by simp [found.1], found.2⟩
        · have inTail : piece ∈ pieces sep rest := tail ▸ List.mem_cons_of_mem _ member
          exact fun c inside => ⟨by simp [(ih inTail c inside).1], (ih inTail c inside).2⟩

/-- The first piece is what stands before the first separator. -/
theorem pieces_of_cut {cs before after : List Char} (found : cut sep cs = some (before, after)) :
    pieces sep cs = before :: pieces sep after := by
  obtain ⟨c, rfl, none_, separates⟩ := cut_eq_some_iff.mp found
  rw [pieces_append separates, pieces_of_forall none_, List.singleton_append]

/-- A run of a text: no separator in it, and one at each of its ends unless the text ends there. -/
structure IsRun (sep : Char → Bool) (run cs : List Char) : Prop where
  none : ∀ c ∈ run, sep c = false
  placed : ∃ front back, cs = front ++ (run ++ back) ∧
    (∀ c, front.getLast? = some c → sep c = true) ∧ ∀ c, back.head? = some c → sep c = true

theorem mem_pieces_iff {cs piece : List Char} : piece ∈ pieces sep cs ↔ IsRun sep piece cs := by
  constructor
  · intro member
    refine ⟨fun c inside => (mem_of_mem_pieces member c inside).2, ?_⟩
    -- by the length of the text, which a cut shortens
    induction length : cs.length using Nat.strongRecOn generalizing cs with
    | ind n ih =>
      subst length
      rcases found : cut sep cs with _ | ⟨before, after⟩
      · rw [pieces_of_forall (cut_eq_none_iff.mp found), List.mem_singleton] at member
        exact ⟨[], [], by simp [member], by simp, by simp⟩
      · rw [pieces_of_cut found] at member
        obtain ⟨c, rfl, -, separates⟩ := cut_eq_some_iff.mp found
        rcases List.mem_cons.mp member with rfl | later
        · exact ⟨[], c :: after, by simp, by simp, by simpa using separates⟩
        · obtain ⟨front, back, rfl, left, right⟩ := ih after.length (by simp; omega) later rfl
          refine ⟨before ++ c :: front, back, by simp, fun d last => ?_, right⟩
          rcases front.eq_nil_or_concat with rfl | ⟨front, e, rfl⟩
          · obtain rfl : c = d := by simpa using last
            exact separates
          · rw [List.concat_eq_append] at left last
            rw [← List.cons_append, ← List.append_assoc, List.getLast?_concat] at last
            exact left d (by rw [List.getLast?_concat, last])
  · rintro ⟨none, front, back, rfl, left, right⟩
    have there : piece ∈ pieces sep (piece ++ back) := by
      cases back with
      | nil => simp [pieces_of_forall none]
      | cons c back => simp [pieces_append (right c rfl), pieces_of_forall none]
    rcases front.eq_nil_or_concat with rfl | ⟨front, c, rfl⟩
    · exact there
    · have separates : sep c = true := left c (by simp)
      rw [List.concat_eq_append, List.append_assoc, List.singleton_append, pieces_append separates]
      exact List.mem_append_right _ there

end Pieces

/-- The words of a text are its runs between blanks that are not empty. -/
theorem mem_words_iff {cs : List Char} : word ∈ words cs ↔ word ≠ [] ∧ IsRun isBlank word cs := by
  rw [words, List.mem_filter, mem_pieces_iff, and_comm, decide_eq_true_iff]

theorem words_of_isSolid (solid : IsSolid word) (some_ : word ≠ []) : words word = [word] := by
  simp [words, pieces_of_forall solid, some_]

theorem words_append_blank (blank : isBlank sep = true) (front back : List Char) :
    words (front ++ sep :: back) = words front ++ words back := by
  simp only [words, pieces_append blank, List.filter_append]

theorem words_append (solid : IsSolid word) (some_ : word ≠ []) (blank : isBlank sep = true) :
    words (word ++ sep :: rest) = word :: words rest := by
  rw [words_append_blank blank, words_of_isSolid solid some_]
  rfl

theorem words_blanks_append {lead : List Char} (blanks : IsBlanks lead) (cs : List Char) :
    words (lead ++ cs) = words cs := by
  induction lead with
  | nil => rfl
  | cons c more ih =>
    obtain ⟨blank, others⟩ := isBlanks_cons.mp blanks
    have dropped : words (c :: (more ++ cs)) = words (more ++ cs) := by simp [words, pieces, blank]
    rw [List.cons_append, dropped, ih others]

theorem words_append_blanks {trail : List Char} (blanks : IsBlanks trail) (cs : List Char) :
    words (cs ++ trail) = words cs := by
  cases trail with
  | nil => rw [List.append_nil]
  | cons c more =>
    obtain ⟨blank, others⟩ := isBlanks_cons.mp blanks
    have none_ : words more = [] := by
      have all := words_blanks_append others []
      rwa [List.append_nil] at all
    rw [words_append_blank blank, none_, List.append_nil]

theorem words_trim (cs : List Char) : words (trim cs) = words cs := by
  obtain ⟨lead, trail, whole, front, back⟩ := exists_trim cs
  have outer : words (lead ++ (trim cs ++ trail)) = words (trim cs) := by
    rw [words_blanks_append front, words_append_blanks back]
  rw [← outer, ← whole]

end Keyring.Text

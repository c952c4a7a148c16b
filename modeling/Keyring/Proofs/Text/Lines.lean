import Keyring.Text.Lines

/-!
# Lines of a text that is put together

The lines of two texts in a row are the lines of the one and then of the other
wherever the first ends with a line feed.
-/

namespace Keyring.Text

theorem endsLine_iff {cs : List Char} : endsLine cs = true ↔ ∃ front, cs = front ++ ['\n'] := by
  rw [endsLine, decide_eq_true_iff, List.getLast?_eq_some_iff]

theorem endsLine_append {a b : List Char} (ends : endsLine b = true) : endsLine (a ++ b) = true := by
  obtain ⟨front, rfl⟩ := endsLine_iff.mp ends
  exact endsLine_iff.mpr ⟨a ++ front, by rw [List.append_assoc]⟩

/-- A text that a line can follow. -/
def IsClosed (cs : List Char) : Prop := cs = [] ∨ endsLine cs = true

theorem IsClosed.append {a b : List Char} (first : IsClosed a) (second : IsClosed b) :
    IsClosed (a ++ b) := by
  rcases second with rfl | ends
  · rwa [List.append_nil]
  · exact .inr (endsLine_append ends)

theorem lines_eq_nil_iff {cs : List Char} : lines cs = [] ↔ cs = [] := by
  constructor
  · intro empty
    rw [← flatten_lines cs, empty, List.flatten_nil]
  · rintro rfl
    rfl

theorem lines_feed (cs : List Char) : lines ('\n' :: cs) = ['\n'] :: lines cs := by
  rw [lines, if_pos rfl]

theorem lines_char {c : Char} (other : c ≠ '\n') {cs line : List Char} {more : List (List Char)}
    (tail : lines cs = line :: more) : lines (c :: cs) = (c :: line) :: more := by
  rw [lines, if_neg other, tail]

theorem lines_append {a : List Char} (closed : IsClosed a) (b : List Char) :
    lines (a ++ b) = lines a ++ lines b := by
  induction a with
  | nil => rfl
  | cons c rest ih =>
    have ends : endsLine (c :: rest) = true := closed.resolve_left (by simp)
    by_cases feed : c = '\n'
    · subst feed
      have closedRest : IsClosed rest := by
        rcases rest with _ | ⟨d, rest⟩
        · exact .inl rfl
        · exact .inr (by simpa [endsLine] using ends)
      rw [List.cons_append, lines_feed, lines_feed, ih closedRest, List.cons_append]
    · rcases rest with _ | ⟨d, rest⟩
      · exact absurd (by simpa [endsLine] using ends) feed
      · have closedRest : IsClosed (d :: rest) := .inr (by simpa [endsLine] using ends)
        obtain ⟨line, more, tail⟩ : ∃ line more, lines (d :: rest) = line :: more :=
          List.exists_cons_of_ne_nil (mt lines_eq_nil_iff.mp (by simp))
        have joined : lines (d :: rest ++ b) = line :: (more ++ lines b) := by
          rw [ih closedRest, tail, List.cons_append]
        rw [List.cons_append, lines_char feed joined, lines_char feed tail, List.cons_append]

/-- The first line of a text is a line of its own, and so are those after it. -/
theorem lines_first {cs line : List Char} {more : List (List Char)} (found : lines cs = line :: more) :
    lines line = [line] ∧ lines more.flatten = more ∧ (more = [] ∨ endsLine line = true) := by
  induction cs generalizing line more with
  | nil => exact absurd found (by simp [lines])
  | cons c rest ih =>
    by_cases feed : c = '\n'
    · subst feed
      obtain ⟨rfl, rfl⟩ : ['\n'] = line ∧ lines rest = more := by
        simpa [lines_feed] using found
      exact ⟨rfl, by rw [flatten_lines], .inr rfl⟩
    · rcases tail : lines rest with _ | ⟨line', more'⟩
      · obtain ⟨rfl, rfl⟩ : [c] = line ∧ [] = more := by
          simpa [lines, feed, tail] using found
        exact ⟨by simp [lines, feed], rfl, .inl rfl⟩
      · obtain ⟨rfl, rfl⟩ : c :: line' = line ∧ more' = more := by
          simpa [lines_char feed tail] using found
        obtain ⟨own, rest', ends⟩ := ih tail
        exact ⟨lines_char feed own, rest', ends.imp_right fun e => endsLine_append (a := [c]) e⟩

/-- Lines taken from the front of a text, and those left, are again lines of a text; the front can
be followed by a line if one is left. -/
theorem lines_split {cs : List Char} {front back : List (List Char)}
    (found : lines cs = front ++ back) :
    lines front.flatten = front ∧ lines back.flatten = back ∧ (back = [] ∨ IsClosed front.flatten) := by
  induction front generalizing cs with
  | nil =>
    have all : back.flatten = cs := by rw [← flatten_lines cs, found, List.nil_append]
    exact ⟨rfl, by rw [all, found, List.nil_append], .inr (.inl rfl)⟩
  | cons line front ih =>
    obtain ⟨own, rest, ends⟩ := lines_first found
    obtain ⟨frontLines, backLines, closed⟩ := ih rest
    rw [List.flatten_cons]
    rcases ends with nothing | ends
    · obtain ⟨rfl, rfl⟩ : front = [] ∧ back = [] := List.append_eq_nil_iff.mp nothing
      exact ⟨by simpa using own, backLines, .inl rfl⟩
    · refine ⟨?_, backLines, closed.imp_right fun c => IsClosed.append (.inr ends) c⟩
      rw [lines_append (.inr ends), own, frontLines, List.singleton_append]

/-- Three runs of the lines of a text are each the lines of a text. -/
theorem lines_between {cs : List Char} {front middle back : List (List Char)}
    (found : lines cs = front ++ middle ++ back) :
    lines front.flatten = front ∧ lines middle.flatten = middle ∧ lines back.flatten = back := by
  obtain ⟨upToBack, backLines, _⟩ := lines_split found
  obtain ⟨_, middleLines, _⟩ := lines_split upToBack
  rw [List.append_assoc] at found
  exact ⟨(lines_split found).1, middleLines, backLines⟩

theorem lines_append_feed {line : List Char} (own : lines line = [line]) (open_ : endsLine line = false) :
    lines (line ++ ['\n']) = [line ++ ['\n']] := by
  induction line with
  | nil => cases own
  | cons c rest ih =>
    have other : c ≠ '\n' := by
      rintro rfl
      obtain rfl : rest = [] := by simpa [lines_feed, lines_eq_nil_iff] using own
      cases open_
    rcases rest with _ | ⟨d, rest⟩
    · simp [lines, other]
    · have tail : lines (d :: rest) = [d :: rest] := by
        rcases found : lines (d :: rest) with _ | ⟨line, more⟩
        · exact absurd (lines_eq_nil_iff.mp found) (by simp)
        · simpa [lines_char other found] using own
      rw [List.cons_append, lines_char other (ih tail (by simpa [endsLine] using open_))]

/-- A text without a line feed is a line when one is put after it. -/
theorem lines_feedless {line : List Char} (feedless : '\n' ∉ line) : lines (line ++ ['\n']) = [line ++ ['\n']] := by
  induction line with
  | nil => rfl
  | cons c rest ih =>
    rw [List.mem_cons, not_or] at feedless
    exact lines_char (Ne.symm feedless.1) (ih feedless.2)

/-- When its last line is ended, a text has one line more than it had line feeds. -/
theorem length_lines_feed (cs : List Char) : (lines (cs ++ ['\n'])).length = cs.count '\n' + 1 := by
  induction cs with
  | nil => rfl
  | cons c rest ih =>
    by_cases feed : c = '\n'
    · subst feed
      rw [List.cons_append, lines_feed, List.length_cons, ih, List.count_cons_self]
    · rcases tail : lines (rest ++ ['\n']) with _ | ⟨line, more⟩
      · rw [tail] at ih
        cases ih
      · rw [List.cons_append, lines_char feed tail, List.count_cons_of_ne feed, ← ih, tail]
        rfl

/-- Within a line there is no line feed but the one that ends it. -/
theorem feedless_of_mem_lines {cs line : List Char} (member : line ++ ['\n'] ∈ lines cs) : '\n' ∉ line := by
  obtain ⟨front, back, found⟩ := List.append_of_mem member
  have own : lines (line ++ ['\n']) = [line ++ ['\n']] := by
    have rest := (lines_split found).2.1
    exact (lines_first rest).1
  clear member found
  induction line with
  | nil => exact List.not_mem_nil
  | cons c rest ih =>
    obtain ⟨first, more, tail⟩ : ∃ first more, lines (rest ++ ['\n']) = first :: more :=
      List.exists_cons_of_ne_nil (mt lines_eq_nil_iff.mp (by simp))
    by_cases feed : c = '\n'
    · subst feed
      rw [List.cons_append, lines_feed, tail] at own
      simp at own
    · rw [List.cons_append, lines_char feed tail, List.cons.injEq, List.cons.injEq] at own
      obtain ⟨⟨-, rfl⟩, rfl⟩ := own
      rw [List.mem_cons, not_or]
      exact ⟨Ne.symm feed, ih tail⟩

/-- A line feed at the end of a text only completes its last line. -/
theorem lines_complete {cs : List Char} (open_ : ¬IsClosed cs) : ∃ front last,
    lines cs = front ++ [last] ∧ lines (cs ++ ['\n']) = front ++ [last ++ ['\n']] := by
  have some : lines cs ≠ [] := mt lines_eq_nil_iff.mp fun empty => open_ (.inl empty)
  obtain ⟨front, last, found⟩ : ∃ front last, lines cs = front ++ [last] :=
    ⟨_, _, (List.dropLast_concat_getLast some).symm⟩
  obtain ⟨frontLines, lastLines, closed⟩ := lines_split found
  rw [List.flatten_singleton] at lastLines
  have whole : cs = front.flatten ++ last := by
    rw [← flatten_lines cs, found, List.flatten_append, List.flatten_singleton]
  have openLast : endsLine last = false := by
    rw [Bool.eq_false_iff]
    intro ends
    exact open_ (.inr (by rw [whole]; exact endsLine_append ends))
  refine ⟨front, last, found, ?_⟩
  rw [whole, List.append_assoc, lines_append (closed.resolve_left (by simp)), frontLines,
    lines_append_feed lastLines openLast]

end Keyring.Text

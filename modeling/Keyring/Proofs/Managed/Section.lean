import Mathlib.Data.List.Basic
import Keyring.Managed.Section
import Keyring.Proofs.Text.Bytes
import Keyring.Proofs.Text.Lines

/-!
# The section of a text

Where a text has its one section, what `merge` and `strip` make of it, and the
laws that they keep together.
-/

namespace Keyring.Managed

open Text

/-- A text around its section. -/
structure Parts where
  before : List Char
  /-- The lines from marker to marker. -/
  inside : List Char
  after : List Char
deriving DecidableEq, Repr

/-- No line of the text holds a marker. -/
def IsFree (text : List Char) : Prop := ∀ line ∈ lines text, isMarker line = false

/-- A begin marker line, lines without a marker, and an end marker line. -/
def IsSection (text : List Char) : Prop :=
  ∃ first body last, lines text = first :: body ++ [last] ∧ isBegin first = true ∧
    (∀ line ∈ body, isMarker line = false) ∧ isEnd last = true

/-- A section whose last line is complete. -/
structure IsBlock (text : List Char) : Prop where
  marked : IsSection text
  complete : endsLine text = true

/-- The parts are those of the text: its one section, and what stands around it. -/
structure Parts.Divide (p : Parts) (text : List Char) : Prop where
  whole : lines text = lines p.before ++ lines p.inside ++ lines p.after
  before : IsFree p.before
  inside : IsSection p.inside
  after : IsFree p.after

instance (text : List Char) : Decidable (IsFree text) :=
  inferInstanceAs (Decidable (∀ line ∈ lines text, isMarker line = false))

theorem isMarker_eq_false {line : List Char} :
    isMarker line = false ↔ isBegin line = false ∧ isEnd line = false := by
  rw [isMarker, Bool.or_eq_false_iff]

theorem isEnd_of_isBegin {line : List Char} (begins : isBegin line = true) : isEnd line = false := by
  rw [isBegin, decide_eq_true_iff] at begins
  rw [isEnd, begins]
  decide

theorem isBegin_of_isEnd {line : List Char} (ends : isEnd line = true) : isBegin line = false := by
  rw [isEnd, decide_eq_true_iff] at ends
  rw [isBegin, ends]
  decide

theorem IsSection.lines_ne_nil {text : List Char} (marked : IsSection text) : lines text ≠ [] := by
  obtain ⟨first, body, last, found, _⟩ := marked
  rw [found]
  simp

theorem IsSection.ne_nil {text : List Char} (marked : IsSection text) : text ≠ [] :=
  mt lines_eq_nil_iff.mpr marked.lines_ne_nil

theorem IsFree.append {a b : List Char} (closed : IsClosed a) (first : IsFree a) (second : IsFree b) :
    IsFree (a ++ b) := by
  intro line member
  rw [lines_append closed, List.mem_append] at member
  exact member.elim (first line) (second line)

theorem IsFree.left {a b : List Char} (closed : IsClosed a) (free : IsFree (a ++ b)) : IsFree a := by
  intro line member
  exact free line (by rw [lines_append closed]; exact List.mem_append_left _ member)

/-- The parts stand in a row, and each but the last can be followed by a line. -/
theorem Parts.Divide.text_eq {p : Parts} {text : List Char} (divide : p.Divide text) :
    text = p.before ++ p.inside ++ p.after := by
  have joined := congrArg List.flatten divide.whole
  simpa only [List.flatten_append, flatten_lines] using joined

theorem Parts.Divide.closed {p : Parts} {text : List Char} (divide : p.Divide text) :
    IsClosed p.before := by
  have found := divide.whole
  rw [List.append_assoc] at found
  obtain ⟨_, _, closed⟩ := lines_split found
  rw [flatten_lines] at closed
  exact closed.resolve_left fun empty => divide.inside.lines_ne_nil (List.append_eq_nil_iff.mp empty).1

/-- Lines from marker to marker between lines that hold none. -/
theorem Parts.Divide.of_lines {text first last : List Char} {front body back : List (List Char)}
    (whole : lines text = front ++ (first :: body ++ [last]) ++ back)
    (freeFront : ∀ l ∈ front, isMarker l = false) (begins : isBegin first = true)
    (free : ∀ l ∈ body, isMarker l = false) (ends : isEnd last = true)
    (freeBack : ∀ l ∈ back, isMarker l = false) :
    (Parts.mk front.flatten (first :: body ++ [last]).flatten back.flatten).Divide text := by
  obtain ⟨frontLines, insideLines, backLines⟩ := lines_between whole
  refine ⟨?_, ?_, ?_, ?_⟩
  · rw [frontLines, insideLines, backLines, whole]
  · rwa [IsFree, frontLines]
  · exact ⟨first, body, last, insideLines, begins, free, ends⟩
  · rwa [IsFree, backLines]

theorem isMarker_of_isBegin {line : List Char} (begins : isBegin line = true) : isMarker line = true := by
  rw [isMarker, begins, Bool.true_or]

theorem isMarker_of_isEnd {line : List Char} (ends : isEnd line = true) : isMarker line = true := by
  rw [isMarker, ends, Bool.or_true]

/-- How many markers there are of each kind. -/
def countMarkers (lines : List (List Char)) : Nat × Nat := (lines.countP isBegin, lines.countP isEnd)

theorem countMarkers_eq_zero_iff {ls : List (List Char)} :
    countMarkers ls = (0, 0) ↔ ∀ l ∈ ls, isMarker l = false := by
  simp only [countMarkers, Prod.mk.injEq, List.countP_eq_zero, Bool.not_eq_true, isMarker_eq_false,
    imp_and, forall_and]

/-- The lines of the one section of a text, by the number of its markers. -/
theorem countMarkers_eq_one_iff {before after body : List (List Char)} {first last : List Char}
    (begins : isBegin first = true) (ends : isEnd last = true) :
    countMarkers (before ++ (first :: body ++ [last]) ++ after) = (1, 1) ↔
      (∀ l ∈ before, isMarker l = false) ∧ (∀ l ∈ body, isMarker l = false) ∧
        ∀ l ∈ after, isMarker l = false := by
  have beginOnly := isEnd_of_isBegin begins
  have endOnly := isBegin_of_isEnd ends
  simp only [← countMarkers_eq_zero_iff, countMarkers, List.countP_append, List.countP_cons,
    List.countP_nil, begins, ends, beginOnly, endOnly, Prod.mk.injEq, Bool.false_eq_true, if_true,
    if_false]
  omega

theorem Parts.Divide.countMarkers {p : Parts} {text : List Char} (divide : p.Divide text) :
    countMarkers (lines text) = (1, 1) := by
  obtain ⟨first, body, last, found, begins, free, ends⟩ := divide.inside
  rw [divide.whole, found]
  exact (countMarkers_eq_one_iff begins ends).mpr ⟨divide.before, free, divide.after⟩

/-- No line holds both markers, so the lines with a marker are those of the one kind and of the other. -/
theorem length_filter_isMarker (ls : List (List Char)) :
    (ls.filter isMarker).length = ls.countP isBegin + ls.countP isEnd := by
  rw [← List.countP_eq_length_filter]
  induction ls with
  | nil => rfl
  | cons l rest ih =>
    simp only [List.countP_cons, ih]
    rcases begins : isBegin l with _ | _
    · rw [show isMarker l = isEnd l by rw [isMarker, begins, Bool.false_or]]
      simp only [Bool.false_eq_true, if_false]
      omega
    · rw [isMarker_of_isBegin begins, isEnd_of_isBegin begins]
      simp only [Bool.false_eq_true, if_true, if_false]
      omega

/-- The lines around two markers, where there are no others. -/
theorem lines_of_markers {ls : List (List Char)} {first last : List Char}
    (found : ls.filter isMarker = [first, last]) :
    ∃ front body back, ls = front ++ (first :: body ++ [last]) ++ back ∧
      (∀ l ∈ front, isMarker l = false) ∧ (∀ l ∈ body, isMarker l = false) ∧
        ∀ l ∈ back, isMarker l = false := by
  obtain ⟨front, rest, whole, freeFront, _, atRest⟩ := List.filter_eq_cons_iff.mp found
  obtain ⟨body, back, split, freeBody, _, atBack⟩ := List.filter_eq_cons_iff.mp atRest
  refine ⟨front, body, back, ?_, by simpa using freeFront, by simpa using freeBody,
    by simpa using List.filter_eq_nil_iff.mp atBack⟩
  rw [whole, split]
  simp

/-- One marker of each kind stands in its order or in the other one. -/
theorem ordered_or_reversed {ls : List (List Char)} (one : countMarkers ls = (1, 1)) :
    ∃ front first body last back, ls = front ++ (first :: body ++ [last]) ++ back ∧
      (∀ l ∈ front, isMarker l = false) ∧ (∀ l ∈ body, isMarker l = false) ∧
      (∀ l ∈ back, isMarker l = false) ∧
      (isBegin first = true ∧ isEnd last = true ∨ isEnd first = true ∧ isBegin last = true) := by
  obtain ⟨begun, ended⟩ := Prod.mk.inj one
  obtain ⟨first, last, marked⟩ :=
    List.length_eq_two.mp (by rw [length_filter_isMarker, begun, ended] : (ls.filter isMarker).length = 2)
  obtain ⟨front, body, back, whole, freeFront, free, freeBack⟩ := lines_of_markers marked
  refine ⟨front, first, body, last, back, whole, freeFront, free, freeBack, ?_⟩
  have marker {l : List Char} (member : l ∈ [first, last]) : isBegin l = true ∨ isEnd l = true := by
    rw [← marked] at member
    simpa [isMarker] using (List.mem_filter.mp member).2
  rw [whole] at begun ended
  simp only [List.countP_append, List.countP_cons, List.countP_nil] at begun ended
  rcases marker (l := first) (by simp) with begins | ends
  · refine .inl ⟨begins, (marker (l := last) (by simp)).resolve_left fun again => ?_⟩
    simp only [begins, again, if_true] at begun
    omega
  · refine .inr ⟨ends, (marker (l := last) (by simp)).resolve_right fun again => ?_⟩
    simp only [ends, again, if_true] at ended
    omega

namespace Tally

theorem foldl_of_free {ls : List (List Char)} (free : ∀ l ∈ ls, isMarker l = false) (t : Tally) :
    ls.foldl step t = { t with offset := t.offset + byteCount ls.flatten } := by
  induction ls generalizing t with
  | nil => rfl
  | cons l rest ih =>
    obtain ⟨notBegin, notEnd⟩ := isMarker_eq_false.mp (free l List.mem_cons_self)
    have next : t.step l = { t with offset := t.offset + byteCount l } := by
      simp only [step, notBegin, notEnd, Bool.false_eq_true, if_false]
    rw [List.foldl_cons, next, ih fun l member => free l (List.mem_cons_of_mem _ member),
      List.flatten_cons, byteCount_append, Nat.add_assoc]

theorem step_of_isBegin {line : List Char} (begins : isBegin line = true) (t : Tally) :
    t.step line = ⟨t.begins ++ [t.offset], t.ends, t.offset + byteCount line⟩ := by
  simp only [step, begins, if_true]

theorem step_of_isEnd {line : List Char} (ends : isEnd line = true) (t : Tally) :
    t.step line = ⟨t.begins, t.ends ++ [t.offset + byteCount line], t.offset + byteCount line⟩ := by
  simp only [step, isBegin_of_isEnd ends, ends, Bool.false_eq_true, if_true, if_false]

/-- A pass notes as many bytes as there are markers. -/
theorem length_foldl (ls : List (List Char)) (t : Tally) :
    (ls.foldl step t).begins.length = t.begins.length + ls.countP isBegin ∧
      (ls.foldl step t).ends.length = t.ends.length + ls.countP isEnd := by
  induction ls generalizing t with
  | nil => exact ⟨rfl, rfl⟩
  | cons l rest ih =>
    obtain ⟨begins_, ends_⟩ := ih (t.step l)
    rw [List.foldl_cons, begins_, ends_, List.countP_cons, List.countP_cons]
    rcases begins : isBegin l with _ | _
    · rcases ends : isEnd l with _ | _
      · simp only [step, begins, ends, Bool.false_eq_true, if_false, Nat.add_zero, and_self]
      · simp only [step_of_isEnd ends, List.length_append, List.length_singleton, Bool.false_eq_true,
          if_false, if_true]
        omega
    · simp only [step_of_isBegin begins, isEnd_of_isBegin begins, List.length_append,
        List.length_singleton, Bool.false_eq_true, if_false, if_true]
      omega

end Tally

theorem length_tally (ls : List (List Char)) :
    ((tally ls).begins.length, (tally ls).ends.length) = countMarkers ls := by
  obtain ⟨begins, ends⟩ := Tally.length_foldl ls .empty
  rw [tally, begins, ends, countMarkers]
  simp [Tally.empty]

/-- The bytes that are noted for a begin marker and a later end marker, by the lines up to each. -/
theorem tally_of_section {front body back : List (List Char)} {first last : List Char}
    (freeFront : ∀ l ∈ front, isMarker l = false) (begins : isBegin first = true)
    (free : ∀ l ∈ body, isMarker l = false) (ends : isEnd last = true)
    (freeBack : ∀ l ∈ back, isMarker l = false) :
    (tally (front ++ (first :: body ++ [last]) ++ back)).begins = [byteCount front.flatten] ∧
      (tally (front ++ (first :: body ++ [last]) ++ back)).ends =
        [byteCount front.flatten + byteCount (first :: body ++ [last]).flatten] := by
  simp only [tally, List.foldl_append, List.foldl_cons, List.foldl_nil, Tally.foldl_of_free freeFront,
    Tally.step_of_isBegin begins, Tally.foldl_of_free free, Tally.step_of_isEnd ends,
    Tally.foldl_of_free freeBack]
  simp [Tally.empty, Nat.add_assoc]

/-- Where the end marker comes first, it ends no later than the begin marker starts. -/
theorem tally_of_reversed {front body back : List (List Char)} {first last : List Char}
    (freeFront : ∀ l ∈ front, isMarker l = false) (ends : isEnd first = true)
    (free : ∀ l ∈ body, isMarker l = false) (begins : isBegin last = true)
    (freeBack : ∀ l ∈ back, isMarker l = false) :
    ∃ start stop, (tally (front ++ (first :: body ++ [last]) ++ back)).begins = [start] ∧
      (tally (front ++ (first :: body ++ [last]) ++ back)).ends = [stop] ∧ stop ≤ start := by
  simp only [tally, List.foldl_append, List.foldl_cons, List.foldl_nil, Tally.foldl_of_free freeFront,
    Tally.step_of_isEnd ends, Tally.foldl_of_free free, Tally.step_of_isBegin begins,
    Tally.foldl_of_free freeBack]
  exact ⟨_, _, rfl, rfl, Nat.le_add_right _ _⟩

/-! ## What is located -/

def Parts.range (p : Parts) : Section := ⟨byteCount p.before, byteCount (p.before ++ p.inside)⟩

theorem tally_of_free {ls : List (List Char)} (free : ∀ l ∈ ls, isMarker l = false) :
    (tally ls).begins = [] ∧ (tally ls).ends = [] := by
  rw [tally, Tally.foldl_of_free free]
  exact ⟨rfl, rfl⟩

theorem locate_eq_none_iff {text : List Char} : locate text = .ok none ↔ IsFree text := by
  constructor
  · intro found
    have counted := length_tally (lines text)
    rw [locate] at found
    split at found
    · rename_i begins ends
      rw [begins, ends] at counted
      exact countMarkers_eq_zero_iff.mp counted.symm
    · split at found <;> cases found
    all_goals cases found
  · intro free
    obtain ⟨begins, ends⟩ := tally_of_free free
    simp only [locate, begins, ends]

theorem locate_of_divide {p : Parts} {text : List Char} (divide : p.Divide text) :
    locate text = .ok (some p.range) := by
  obtain ⟨first, body, last, found, begins, free, ends⟩ := divide.inside
  obtain ⟨start, stop⟩ := tally_of_section divide.before begins free ends divide.after
  rw [← found, ← divide.whole, flatten_lines] at start stop
  rw [flatten_lines] at stop
  have some_ := byteCount_pos divide.inside.ne_nil
  have ordered : byteCount p.before < byteCount p.before + byteCount p.inside := by omega
  simp only [locate, start, stop, ordered, if_true, Parts.range, byteCount_append]

theorem divide_of_locate {s : Section} {text : List Char} (found : locate text = .ok (some s)) :
    ∃ p : Parts, p.Divide text ∧ s = p.range := by
  obtain ⟨start, stop, begun, ended, ordered⟩ : ∃ start stop, (tally (lines text)).begins = [start] ∧
      (tally (lines text)).ends = [stop] ∧ start < stop := by
    rw [locate] at found
    split at found
    · cases found
    · rename_i start stop begun ended
      split at found
      · exact ⟨start, stop, begun, ended, ‹_›⟩
      · cases found
    all_goals cases found
  have counted : countMarkers (lines text) = (1, 1) := by
    rw [← length_tally, begun, ended]
    rfl
  obtain ⟨front, first, body, last, back, whole, freeFront, free, freeBack,
    ⟨begins, ends⟩ | ⟨ends, begins⟩⟩ := ordered_or_reversed counted
  · have divide := Parts.Divide.of_lines whole freeFront begins free ends freeBack
    exact ⟨_, divide, by simpa [locate_of_divide divide] using found.symm⟩
  · -- markers in the other order are not ordered by their bytes
    obtain ⟨start', stop', begun', ended', reversed⟩ :=
      tally_of_reversed freeFront ends free begins freeBack
    rw [← whole] at begun' ended'
    obtain ⟨rfl, _⟩ := List.cons.inj (begun.symm.trans begun')
    obtain ⟨rfl, _⟩ := List.cons.inj (ended.symm.trans ended')
    omega

theorem locate_eq_some_iff {s : Section} {text : List Char} :
    locate text = .ok (some s) ↔ ∃ p : Parts, p.Divide text ∧ s = p.range :=
  ⟨divide_of_locate, fun ⟨_, divide, same⟩ => same ▸ locate_of_divide divide⟩

theorem sectioned_of_locate {text : List Char} {found : Option Section} (located : locate text = .ok found) :
    IsFree text ∨ ∃ p : Parts, p.Divide text := by
  cases found with
  | none => exact .inl (locate_eq_none_iff.mp located)
  | some s =>
    obtain ⟨p, divide, _⟩ := locate_eq_some_iff.mp located
    exact .inr ⟨p, divide⟩

theorem IsFree.not_divide {text : List Char} (free : IsFree text) (p : Parts) : ¬p.Divide text := by
  intro divide
  have none := locate_eq_none_iff.mpr free
  rw [locate_of_divide divide] at none
  cases none

/-- What stands around the section of a text can be cut off. -/
theorem around_of_divide {p : Parts} {text : List Char} (divide : p.Divide text) :
    around text p.range = .ok (p.before, p.after) := by
  have start : cutAt text p.range.start = .ok (p.before, p.inside ++ p.after) := by
    rw [cutAt, divide.text_eq, List.append_assoc, Parts.range, cutAtByte?_append]
  have stop : cutAt text p.range.stop = .ok (p.before ++ p.inside, p.after) := by
    rw [cutAt, divide.text_eq, Parts.range, cutAtByte?_append]
  rw [around, start, bind, stop]
  rfl

theorem Parts.Divide.unique {p q : Parts} {text : List Char} (one : p.Divide text) (two : q.Divide text) :
    p = q := by
  have same : p.range = q.range := by simpa [locate_of_divide one] using locate_of_divide two
  have cut := around_of_divide one
  rw [same, around_of_divide two] at cut
  obtain ⟨before, after⟩ := Prod.mk.inj (Except.ok.inj cut)
  have inside := two.text_eq.symm.trans one.text_eq
  rw [before, after, List.append_left_inj, List.append_right_inj] at inside
  obtain ⟨_, _, _⟩ := p
  obtain ⟨_, _, _⟩ := q
  simp_all

end Keyring.Managed

import Keyring.Proofs.Yaml.Cursor

/-!
# Plain scalars there and back

A text that is written plain is a row of words with spaces between them. No word ends in a colon or starts with
a sharp (`PlainText`), and so the scan goes on from word to word up to the line end.
-/

namespace Keyring.Yaml

variable {c : Cursor} {w t cs more acc : List Char} {d : Char} {fuel size n : Nat} {gap : Gap}

/-- A word of a plain scalar ends before these characters. -/
def EndsWord (t : List Char) : Prop :=
  ∀ d more, t = d :: more → isGap d = true ∨ d = ':' ∧ endOr isGap more.head? = true

/-- Characters of one word of a plain scalar, before those that follow it. -/
inductive IsWord (t : List Char) : List Char → Prop where
  | nil : IsWord t []
  | cons {d : Char} {w : List Char} : isGap d = false → (d = ':' → endOr isGap (w ++ t).head? = false) →
      IsWord t w → IsWord t (d :: w)

theorem scanPlainWord?_of_isWord (fuel : Nat) (acc : List Char) (word : IsWord t w) (ends : EndsWord t)
    (ahead : c.rest = w ++ t) (enough : w.length < fuel) :
    ∃ c', scanPlainWord? false fuel acc c = some (acc.reverse ++ w, c') ∧ c.Past w c' := by
  induction word generalizing c acc fuel with
  | nil =>
    obtain ⟨fuel, rfl⟩ : ∃ more, fuel = more + 1 := ⟨fuel - 1, by omega⟩
    refine ⟨c, ?_, .refl c⟩
    have ahead : c.rest = t := ahead
    rw [scanPlainWord?, ahead]
    cases t with
    | nil => simp
    | cons d more =>
      rcases ends d more rfl with gap | ⟨rfl, gap⟩
      · simp [gap]
      · simp [gap]
  | @cons d w notGap noKey _ ih =>
    obtain ⟨fuel, rfl⟩ : ∃ more, fuel = more + 1 := ⟨fuel - 1, by omega⟩
    have ahead : c.rest = d :: (w ++ t) := ahead
    have first := Cursor.past_skip_one ahead
    obtain ⟨c', found, past⟩ := @ih (c.skip 1) fuel (d :: acc) (first.rest_eq ahead) (by simpa using enough)
    refine ⟨c', ?_, first.trans past⟩
    rw [scanPlainWord?, ahead]
    have goesOn : (decide (d = ':') && endOr isGap (w ++ t).head?) = false := by
      by_cases colon : d = ':'
      · rw [noKey colon, Bool.and_false]
      · simp [colon]
    simp only [notGap, goesOn, Bool.false_and, Bool.or_self, Bool.false_eq_true, if_false, found]
    simp

/-- Words with spaces between them, before the line end that is followed by others. -/
inductive PlainText (more : List Char) : List Char → Prop where
  | last {w : List Char} : w ≠ [] → w.head? ≠ some '#' → IsWord ('\n' :: more) w → PlainText more w
  | word {w cs : List Char} {n : Nat} : w ≠ [] → w.head? ≠ some '#' →
      IsWord (spaces (n + 1) ++ (cs ++ '\n' :: more)) w → PlainText more cs →
      PlainText more (w ++ (spaces (n + 1) ++ cs))

theorem IsWord.isFlush (word : IsWord t w) (some_ : w ≠ []) : IsFlush (w ++ more) := by
  cases word with
  | nil => exact absurd rfl some_
  | cons notGap => exact isFlush_cons.mpr notGap

theorem PlainText.isFlush (text : PlainText more cs) : IsFlush (cs ++ t) := by
  cases text with
  | last some_ _ word => exact word.isFlush some_
  | word some_ _ word =>
    rw [List.append_assoc]
    exact word.isFlush some_

theorem scanPlain?_word (fuel : Nat) (acc : List Char) (gap : Gap) (word : IsWord t w) (some_ : w ≠ [])
    (noSharp : w.head? ≠ some '#') (ends : EndsWord t) (gapAhead : t.head?.any isGap = true)
    (ahead : c.rest = w ++ t) (right : 0 < c.column) (room : c.rest.length ≤ size) :
    ∃ c', c.Past w c' ∧ scanPlain? false 1 size (fuel + 1) acc gap c =
      (scanGap? 1 (size + 1) Gap.none c').bind fun (next, c'') =>
        if (c''.column : Int) < 1 then some (acc ++ gap.text ++ w, next.folded, c'')
        else scanPlain? false 1 size fuel (acc ++ gap.text ++ w) next c'' := by
  have short : w.length < size + 1 := by
    rw [ahead, List.length_append] at room
    omega
  obtain ⟨c', found, past⟩ := scanPlainWord?_of_isWord (size + 1) [] word ends ahead short
  have notSharp : c.sees '#' = false := by
    obtain ⟨d, v, rfl⟩ := List.exists_cons_of_ne_nil some_
    simpa [Cursor.sees, ahead] using noSharp
  refine ⟨c', past, ?_⟩
  rw [scanPlain?, Cursor.seesDocumentLine_eq_false right, notSharp, found]
  have gapAfter : c'.rest.head?.any isGap = true := by rw [past.rest_eq ahead, gapAhead]
  simp only [Bool.or_self, Bool.false_eq_true, if_false, List.reverse_nil, List.nil_append, bind, Option.bind_some,
    if_neg some_, gapAfter, Bool.not_true, Bool.not_false, Bool.true_and, decide_eq_true_eq]

theorem scanPlain?_of_plainText (text : PlainText more cs) (flush : IsFlush more) (ahead : c.rest = cs ++ '\n' :: more)
    (right : 0 < c.column) (enough : cs.length < fuel) (room : c.rest.length ≤ size) :
    ∃ c', scanPlain? false 1 size fuel acc gap c = some (acc ++ gap.text ++ cs, true, c') ∧
      c'.rest = more ∧ c'.column = 0 := by
  induction text generalizing c acc gap fuel with
  | @last w some_ noSharp word =>
    obtain ⟨fuel, rfl⟩ : ∃ more, fuel = more + 1 := ⟨fuel - 1, by omega⟩
    have ends : EndsWord ('\n' :: more) := by
      rintro _ _ ⟨⟩
      exact .inl rfl
    obtain ⟨c', past, scanned⟩ := scanPlain?_word fuel acc gap word some_ noSharp ends rfl ahead right room
    have ahead' : c'.rest = '\n' :: ([] ++ (spaces 0 ++ more)) := past.rest_eq ahead
    obtain ⟨c'', found, after, column⟩ := scanGap?_breaks 1 (size + 1) Gap.none ahead'
      (by simpa using isBreak_feed) flush (by rw [ahead] at room; simp at room ⊢; omega)
    refine ⟨c'', ?_, after, column⟩
    rw [scanned, found]
    simp [column]
  | @word w cs n some_ noSharp word text ih =>
    obtain ⟨fuel, rfl⟩ : ∃ more, fuel = more + 1 := ⟨fuel - 1, by omega⟩
    have ahead : c.rest = w ++ (spaces (n + 1) ++ (cs ++ '\n' :: more)) := by simpa using ahead
    have ends : EndsWord (spaces (n + 1) ++ (cs ++ '\n' :: more)) := by
      rintro _ _ ⟨⟩
      exact .inl rfl
    obtain ⟨c', past, scanned⟩ := scanPlain?_word fuel acc gap word some_ noSharp ends rfl ahead right room
    obtain ⟨c'', found, past'⟩ := scanGap?_spaces 1 (size + 1) Gap.none
      (past.rest_eq ahead) text.isFlush (by rw [ahead] at room; simp at room; omega)
    have right' : 0 < c''.column := by
      rw [past'.column, length_spaces]
      omega
    have ahead'' := past'.rest_eq (past.rest_eq ahead)
    obtain ⟨last, found', after⟩ := @ih c'' (acc ++ gap.text ++ w) fuel ⟨spaces (n + 1), [], false⟩ ahead'' right'
      (by simp at enough; omega) (by rw [ahead''] ; rw [ahead] at room; simp at room ⊢; omega)
    refine ⟨last, ?_, after⟩
    rw [scanned, found]
    simp only [Gap.none, List.nil_append, Option.bind_some, Bool.false_eq_true, if_false]
    rw [if_neg (by omega), found']
    simp [Gap.text]

theorem hasInnerMark_cons_eq_false : hasInnerMark (d :: cs) = false ↔
    (d = ':' → endOr isGap cs.head? = false) ∧ (cs.head? = some '#' → isGap d = false) ∧ hasInnerMark cs = false := by
  by_cases colon : d = ':'
  · have notGap : isGap ':' = false := rfl
    subst colon
    simp [hasInnerMark, notGap]
  · rcases cs with _ | ⟨e, cs⟩
    · simp [hasInnerMark, colon]
    · by_cases sharp : e = '#'
      · subst sharp
        simp [hasInnerMark, colon]
      · simp [hasInnerMark, colon, sharp]

theorem hasInnerMark_of_append (none_ : hasInnerMark (w ++ cs) = false) : hasInnerMark cs = false := by
  induction w with
  | nil => exact none_
  | cons d w ih => exact ih (hasInnerMark_cons_eq_false.mp none_).2.2

theorem isWord_of_noMark (noGap : ∀ d ∈ w, isGap d = false) (none_ : hasInnerMark (w ++ cs) = false) :
    IsWord (cs ++ t) w := by
  induction w with
  | nil => exact .nil
  | cons d w ih =>
    obtain ⟨here, later⟩ := List.forall_mem_cons.mp noGap
    obtain ⟨noKey, -, rest⟩ := hasInnerMark_cons_eq_false.mp none_
    refine .cons here (fun colon => ?_) (ih later rest)
    have goesOn : endOr isGap (w ++ cs).head? = false := noKey colon
    show endOr isGap (w ++ (cs ++ t)).head? = false
    rw [← List.append_assoc]
    generalize w ++ cs = v at goesOn
    cases v with
    | nil => cases goesOn
    | cons => exact goesOn

/-- A text that is written plain, from the start of one of its words on. -/
structure IsPlainRest (cs : List Char) : Prop where
  printable : ∀ d ∈ cs, isPrintable d = true
  oneLine : ∀ d ∈ cs, isLineEnd d = false
  noMark : hasInnerMark cs = false
  noSharp : cs.head? ≠ some '#'
  starts : cs.head? ≠ some ' '
  ends : cs.getLast? ≠ some ' '

theorem IsPlainRest.not_gap (plain : IsPlainRest cs) (member : d ∈ cs) (notSpace : d ≠ ' ') : isGap d = false := by
  rw [Bool.eq_false_iff, ne_eq, isGap_iff (plain.printable d member)]
  simp [notSpace, plain.oneLine d member]

/-- It is also plain from the start of a later word on. -/
theorem IsPlainRest.of_append (plain : IsPlainRest (w ++ (spaces (n + 1) ++ cs))) (noSpace : cs.head? ≠ some ' ') :
    IsPlainRest cs where
  printable d member := plain.printable d (List.mem_append_right _ (List.mem_append_right _ member))
  oneLine d member := plain.oneLine d (List.mem_append_right _ (List.mem_append_right _ member))
  noMark := hasInnerMark_of_append (hasInnerMark_of_append plain.noMark)
  noSharp := by
    -- a sharp after a space would start a comment
    intro sharp
    have shape : w ++ (spaces (n + 1) ++ cs) = (w ++ spaces n) ++ ' ' :: cs := by
      simp [spaces, List.replicate_succ']
    have noMark := plain.noMark
    rw [shape] at noMark
    cases (hasInnerMark_cons_eq_false.mp (hasInnerMark_of_append noMark)).2.1 sharp
  starts := noSpace
  ends := by
    intro last
    refine plain.ends ?_
    rw [List.getLast?_append, List.getLast?_append, last]
    rfl

theorem plainText_of_isPlainRest (some_ : cs ≠ []) (plain : IsPlainRest cs) (more : List Char) :
    PlainText more cs := by
  induction size : cs.length using Nat.strongRecOn generalizing cs with
  | ind size ih =>
    obtain ⟨w, n, v, rfl, inWord, noSpace, none_⟩ := exists_word cs
    have noGap : ∀ d ∈ w, isGap d = false := fun d member =>
      plain.not_gap (List.mem_append_left _ member) (inWord d member)
    have someWord : w ≠ [] := by
      rintro rfl
      cases n with
      | zero => exact some_ (none_ rfl)
      | succ n => exact plain.starts rfl
    have noSharp : w.head? ≠ some '#' := by
      obtain ⟨d, u, rfl⟩ := List.exists_cons_of_ne_nil someWord
      exact plain.noSharp
    have word := isWord_of_noMark (t := '\n' :: more) noGap plain.noMark
    cases n with
    | zero =>
      obtain rfl := none_ rfl
      have whole : w ++ (spaces 0 ++ []) = w := List.append_nil w
      rw [whole]
      exact .last someWord noSharp word
    | succ n =>
      have someRest : v ≠ [] := by
        rintro rfl
        refine plain.ends ?_
        simp [spaces, List.replicate_succ']
      rw [List.append_assoc] at word
      refine .word someWord noSharp word (ih v.length ?_ someRest (plain.of_append noSpace) rfl)
      rw [← size]
      simp
      omega

theorem isPlainRest_of_allowsPlain (allowed : allowsPlain cs = true) : IsPlainRest cs := by
  simp only [allowsPlain, needsEscapes, Bool.not_eq_true', Bool.or_eq_false_iff] at allowed
  obtain ⟨⟨⟨⟨⟨⟨⟨printable, -⟩, oneLine⟩, mark⟩, noMark⟩, -⟩, head⟩, last⟩ := allowed
  refine ⟨fun d member => ?_, fun d member => ?_, noMark, fun sharp => ?_, fun space => ?_, fun space => ?_⟩
  · simpa using List.any_eq_false.mp printable d member
  · simpa using List.any_eq_false.mp oneLine d member
  · cases cs with
    | nil => cases sharp
    | cons d cs =>
      cases sharp
      cases mark
  · rw [space] at head
    cases head
  · rw [space] at last
    cases last

end Keyring.Yaml

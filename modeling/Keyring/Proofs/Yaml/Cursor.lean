import Keyring.Yaml.Layout
import Keyring.Yaml.Token.Quoted

/-!
# Moving through YAML

How a cursor moves over a stretch of a line (`Cursor.Past`) and over the gap between two words of a scalar.
Of the characters that are written unescaped only the space is a blank, and each line end stands for itself.
-/

namespace Keyring.Yaml

variable {c c' c'' : Cursor} {w v t : List Char} {d e : Char}

/-- No gap comes first. -/
def IsFlush (cs : List Char) : Prop := cs.head?.any isGap = false

theorem isFlush_nil : IsFlush [] := rfl

theorem isFlush_cons : IsFlush (d :: w) ↔ isGap d = false := Iff.rfl

theorem IsFlush.append (flush : IsFlush w) (some_ : w ≠ []) (t : List Char) : IsFlush (w ++ t) := by
  cases w with
  | nil => exact absurd rfl some_
  | cons => exact flush

theorem IsFlush.head (flush : IsFlush t) {p : Char → Bool} (gaps : ∀ d, p d = true → isGap d = true) :
    t.head?.any p = false := by
  cases t with
  | nil => rfl
  | cons d t =>
    have notGap := isFlush_cons.mp flush
    rw [List.head?_cons, Option.any_some, Bool.eq_false_iff]
    intro here
    rw [gaps d here] at notGap
    cases notGap

theorem exists_gap (gap : t.head?.any isGap = true) : ∃ d more, t = d :: more ∧ isGap d = true := by
  cases t with
  | nil => cases gap
  | cons d more => exact ⟨d, more, rfl, gap⟩

theorem isGap_iff (printable : isPrintable d = true) : isGap d = true ↔ d = ' ' ∨ isLineEnd d = true := by
  have notTab : d ≠ '\t' := by
    rintro rfl
    cases printable
  simp [isGap, isSpaceOrTab, notTab]

@[simp] theorem length_spaces (n : Nat) : (spaces n).length = n := List.length_replicate

theorem isAllowed_of_isPrintable (printable : isPrintable d = true) : isAllowed d = true := by
  simp only [isPrintable, isAllowed, Bool.or_eq_true, Bool.and_eq_true, decide_eq_true_eq] at printable ⊢
  omega

/-- A line end that is written as itself. -/
structure IsBreak (d : Char) : Prop where
  lineEnd : isLineEnd d = true
  printable : isPrintable d = true

theorem IsBreak.ne_return (breaks : IsBreak d) : d ≠ '\r' := by
  rintro rfl
  cases breaks.printable

theorem IsBreak.not_blank (breaks : IsBreak d) : isSpaceOrTab d = false := by
  rw [Bool.eq_false_iff]
  intro blank
  simp only [isSpaceOrTab, Bool.or_eq_true, decide_eq_true_eq] at blank
  rcases blank with rfl | rfl <;> cases breaks.lineEnd

theorem isBreak_feed : IsBreak '\n' := ⟨rfl, rfl⟩

theorem IsBreak.breakHere (breaks : IsBreak d) (rest : c.rest = d :: t) : c.breakHere = [d] := by
  have notNext : d ≠ '\u0085' := by
    rintro rfl
    cases breaks.printable
  have kinds := breaks.lineEnd
  simp only [isLineEnd, Bool.or_eq_true, decide_eq_true_eq, breaks.ne_return, notNext, or_false] at kinds
  rcases kinds with (rfl | rfl) | rfl <;> simp [Cursor.breakHere, rest, isLineEnd]

/-- The characters up to the first that fails a test, and the others. -/
theorem exists_run (p : Char → Bool) (cs : List Char) :
    ∃ w r, cs = w ++ r ∧ (∀ d ∈ w, p d = true) ∧ r.head?.any p = false := by
  induction cs with
  | nil => exact ⟨[], [], rfl, List.forall_mem_nil _, rfl⟩
  | cons d cs ih =>
    by_cases here : p d = true
    · obtain ⟨w, r, rfl, all, stops⟩ := ih
      exact ⟨d :: w, r, rfl, List.forall_mem_cons.mpr ⟨here, all⟩, stops⟩
    · exact ⟨[], d :: cs, rfl, List.forall_mem_nil _, by simpa using here⟩

theorem exists_spaces (cs : List Char) : ∃ n r, cs = spaces n ++ r ∧ r.head? ≠ some ' ' := by
  obtain ⟨w, r, rfl, all, stops⟩ := exists_run (· = ' ') cs
  have same : w = spaces w.length := List.eq_replicate_iff.mpr ⟨rfl, fun d member => by simpa using all d member⟩
  refine ⟨w.length, r, by rw [← same], ?_⟩
  cases r <;> simp at stops ⊢
  exact stops

/-- A word, and the spaces after it unless it is the last one. -/
theorem exists_word (cs : List Char) : ∃ w n r, cs = w ++ (spaces n ++ r) ∧ (∀ d ∈ w, d ≠ ' ') ∧
    r.head? ≠ some ' ' ∧ (n = 0 → r = []) := by
  obtain ⟨w, v, rfl, inWord, stops⟩ := exists_run (· ≠ ' ') cs
  obtain ⟨n, r, rfl, noSpace⟩ := exists_spaces v
  refine ⟨w, n, r, rfl, fun d member => by simpa using inWord d member, noSpace, ?_⟩
  rintro rfl
  cases r with
  | nil => rfl
  | cons d r =>
    have other : d ≠ ' ' := by simpa using noSpace
    simp [spaces, other] at stops

namespace Cursor

/-- A cursor has gone on past some characters of a line. -/
structure Past (c : Cursor) (w : List Char) (c' : Cursor) : Prop where
  rest : c.rest = w ++ c'.rest
  line : c'.line = c.line
  column : c'.column = c.column + w.length
  /-- A character takes four bytes at most. -/
  index : c'.index ≤ c.index + 4 * w.length

namespace Past

theorem refl (c : Cursor) : c.Past [] c := ⟨rfl, rfl, rfl, by simp⟩

theorem trans (first : c.Past w c') (second : c'.Past v c'') : c.Past (w ++ v) c'' where
  rest := by rw [first.rest, second.rest, List.append_assoc]
  line := second.line.trans first.line
  column := by rw [second.column, first.column, List.length_append, Nat.add_assoc]
  index := by
    have := first.index
    have := second.index
    rw [List.length_append]
    omega

theorem length_le (past : c.Past w c') : c'.rest.length ≤ c.rest.length := by
  rw [past.rest, List.length_append]
  omega

theorem rest_eq (past : c.Past w c') (ahead : c.rest = w ++ t) : c'.rest = t :=
  List.append_cancel_left (past.rest.symm.trans ahead)

end Past

theorem past_skip (ahead : c.rest = w ++ t) : c.Past w (c.skip w.length) where
  rest := by simp [skip, ahead]
  line := rfl
  column := rfl
  index := by
    have bound : ∀ n, (w.map Char.utf8Size).foldl Nat.add n ≤ n + 4 * w.length := by
      clear ahead
      induction w with
      | nil => simp
      | cons d w ih =>
        intro n
        have size := d.utf8Size_le_four
        have more : (w.map Char.utf8Size).foldl Nat.add (n.add d.utf8Size) ≤ n + d.utf8Size + 4 * w.length :=
          ih (n + d.utf8Size)
        rw [List.map_cons, List.foldl_cons, List.length_cons]
        omega
    have taken := bound 0
    show c.index + ((c.rest.take w.length).map Char.utf8Size).foldl Nat.add 0 ≤ _
    rw [ahead, List.take_left]
    omega

theorem past_skip_one (ahead : c.rest = d :: t) : c.Past [d] (c.skip 1) := past_skip (w := [d]) ahead

theorem nextLine_of_break (breaks : IsBreak d) (ahead : c.rest = d :: t) :
    c.nextLine = ⟨t, c.line + 1, 0, c.index + d.utf8Size⟩ := by
  unfold nextLine
  rw [ahead]
  split
  · rename_i same
    exact absurd (List.cons.inj same).1 breaks.ne_return
  · rename_i same
    obtain ⟨rfl, rfl⟩ := List.cons.inj same
    rfl
  · contradiction

theorem seesDocumentLine_eq_false (right : 0 < c.column) : c.seesDocumentLine = false := by
  simp [seesDocumentLine, seesRule, Nat.ne_of_gt right]

end Cursor

variable {limit : Int} {fuel : Nat} {g : Gap} {bs : List Char}

theorem scanGap?_spaces (limit : Int) (fuel : Nat) (g : Gap) {n : Nat} (ahead : c.rest = spaces n ++ t)
    (flush : IsFlush t) (enough : n < fuel) :
    ∃ c', scanGap? limit fuel g c =
      some (if g.folded then g else { g with blanks := g.blanks ++ spaces n }, c') ∧ c.Past (spaces n) c' := by
  induction n generalizing c g fuel with
  | zero =>
    obtain ⟨fuel, rfl⟩ : ∃ more, fuel = more + 1 := ⟨fuel - 1, by omega⟩
    refine ⟨c, ?_, .refl c⟩
    have ahead : c.rest = t := ahead
    rw [scanGap?, ahead]
    cases t with
    | nil => simp [spaces]
    | cons d t =>
      have notGap := isFlush_cons.mp flush
      simp only [isGap, Bool.or_eq_false_iff] at notGap
      simp [notGap, spaces]
  | succ n ih =>
    obtain ⟨fuel, rfl⟩ : ∃ more, fuel = more + 1 := ⟨fuel - 1, by omega⟩
    have ahead : c.rest = ' ' :: (spaces n ++ t) := ahead
    have first := Cursor.past_skip_one ahead
    obtain ⟨c', found, past⟩ := @ih (c.skip 1) fuel (if g.folded then g else { g with blanks := g.blanks ++ [' '] })
      (first.rest_eq ahead) (by omega)
    refine ⟨c', ?_, first.trans past⟩
    rw [scanGap?, ahead]
    simp only [show isSpaceOrTab ' ' = true from rfl, if_true]
    rw [if_neg (by simp), found]
    cases folded : g.folded <;> simp [folded, spaces, List.replicate_succ]

theorem scanGap?_break (breaks : IsBreak d) (ahead : c.rest = d :: t) :
    scanGap? limit (fuel + 1) g c = scanGap? limit fuel { g with breaks := g.breaks ++ [d], folded := true }
      ⟨t, c.line + 1, 0, c.index + d.utf8Size⟩ := by
  rw [scanGap?, ahead]
  simp only [breaks.not_blank, breaks.lineEnd, if_true, Bool.false_eq_true, if_false]
  rw [breaks.breakHere ahead, Cursor.nextLine_of_break breaks ahead]

/-- More line ends, once a line has ended, and the indentation after them. -/
theorem scanGap?_folded {n : Nat} (ahead : c.rest = bs ++ (spaces n ++ t)) (breaks : ∀ d ∈ bs, IsBreak d)
    (flush : IsFlush t) (enough : bs.length + n < fuel) (folded : g.folded = true) (atStart : c.column = 0) :
    ∃ c', scanGap? limit fuel g c = some ({ g with breaks := g.breaks ++ bs }, c') ∧ c'.rest = t ∧ c'.column = n := by
  induction bs generalizing c g fuel with
  | nil =>
    obtain ⟨c', found, past⟩ := scanGap?_spaces limit fuel g ahead flush (by simpa using enough)
    refine ⟨c', ?_, past.rest_eq ahead, ?_⟩
    · rw [found, if_pos folded, List.append_nil]
    · rw [past.column, atStart, length_spaces, Nat.zero_add]
  | cons e bs ih =>
    obtain ⟨fuel, rfl⟩ : ∃ more, fuel = more + 1 := ⟨fuel - 1, by omega⟩
    rw [List.length_cons] at enough
    have ahead : c.rest = e :: (bs ++ (spaces n ++ t)) := ahead
    have later : ∀ d ∈ bs, IsBreak d := fun d member => breaks d (List.mem_cons_of_mem _ member)
    obtain ⟨c', found, after⟩ := @ih ⟨bs ++ (spaces n ++ t), c.line + 1, 0, c.index + e.utf8Size⟩ fuel
      { g with breaks := g.breaks ++ [e], folded := true } rfl later (by omega) rfl rfl
    refine ⟨c', ?_, after⟩
    rw [scanGap?_break (breaks e List.mem_cons_self) ahead, found]
    simp [folded]

theorem scanGap?_breaks (limit : Int) (fuel : Nat) (g : Gap) {n : Nat} (ahead : c.rest = e :: (bs ++ (spaces n ++ t)))
    (breaks : ∀ d ∈ e :: bs, IsBreak d) (flush : IsFlush t) (enough : (e :: bs).length + n < fuel) :
    ∃ c', scanGap? limit fuel g c = some ({ g with breaks := g.breaks ++ e :: bs, folded := true }, c') ∧
      c'.rest = t ∧ c'.column = n := by
  obtain ⟨fuel, rfl⟩ : ∃ more, fuel = more + 1 := ⟨fuel - 1, by omega⟩
  rw [List.length_cons] at enough
  have later : ∀ d ∈ bs, IsBreak d := fun d member => breaks d (List.mem_cons_of_mem _ member)
  let next : Cursor := ⟨bs ++ (spaces n ++ t), c.line + 1, 0, c.index + e.utf8Size⟩
  obtain ⟨c', found, after⟩ := @scanGap?_folded next t limit fuel
    { g with breaks := g.breaks ++ [e], folded := true } bs n rfl later flush (by omega) rfl rfl
  refine ⟨c', ?_, after⟩
  rw [scanGap?_break (breaks e List.mem_cons_self) ahead, found]
  simp

end Keyring.Yaml

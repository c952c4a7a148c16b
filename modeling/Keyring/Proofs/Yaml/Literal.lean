import Keyring.Proofs.Yaml.Cursor
import Keyring.Yaml.Token.Block

/-!
# Literal scalars there and back

Under its bar a text stands line by line, each line that is not empty behind two spaces (`LiteralBody`). The marks
after the bar say what the line ends after the last line count for, as it is with the text.
-/

namespace Keyring.Yaml

variable {chomp : Chomp} {c : Cursor} {t l bs cs body text more acc lastBreak breaks : List Char} {d e : Char}
  {fuel size n widest : Nat} {before : Bool}

/-- What the line ends after the last line count for. -/
def kept (chomp : Chomp) (lastBreak breaks : List Char) : List Char :=
  match chomp with
  | .no => []
  | .one => lastBreak
  | .all => lastBreak ++ breaks

theorem Cursor.skip_zero (c : Cursor) : c.skip 0 = c := by cases c; rfl

theorem run_eq {p : Char → Bool} (ahead : c.rest = l ++ t) (all : ∀ d ∈ l, p d = true)
    (stops : t.head?.any p = false) : c.run p = l := by
  have none_ : t.takeWhile p = [] := by
    cases t with
    | nil => rfl
    | cons d t =>
      have here : p d = false := stops
      simp [here]
  rw [Cursor.run, ahead, List.takeWhile_append_of_pos all, none_, List.append_nil]

theorem scanEmptyLines?_break (isBreak : IsBreak d) (ahead : c.rest = d :: t) (atStart : c.column = 0) :
    scanEmptyLines? 2 (fuel + 1) widest breaks c =
      scanEmptyLines? 2 fuel widest (breaks ++ [d]) ⟨t, c.line + 1, 0, c.index + d.utf8Size⟩ := by
  have notSpace : d ≠ ' ' := by
    rintro rfl
    cases isBreak.lineEnd
  have notTab : d ≠ '\t' := by
    rintro rfl
    cases isBreak.lineEnd
  have none_ : c.run (· = ' ') = [] := run_eq (l := []) ahead (List.forall_mem_nil _) (by simp [notSpace])
  rw [scanEmptyLines?, none_]
  simp only [List.length_nil, Nat.zero_min, ite_self, Cursor.skip_zero, atStart, Nat.max_zero]
  have end_ : c.atLineEnd = true := by simp [Cursor.atLineEnd, ahead, isBreak.lineEnd]
  have noTab : c.sees '\t' = false := by simp [Cursor.sees, ahead, notTab]
  simp [end_, noTab, isBreak.breakHere ahead, Cursor.nextLine_of_break isBreak ahead]

/-- A line with something in it, whether or not the indentation is known. -/
theorem scanEmptyLines?_line {indent : Nat} (ahead : c.rest = spaces 2 ++ d :: t) (sameLine : isLineEnd d = false)
    (atStart : c.column = 0) (given : indent = 2 ∨ indent = 0 ∧ d ≠ ' ' ∧ d ≠ '\t') :
    scanEmptyLines? indent (fuel + 1) widest breaks c = some (max widest 2, breaks, c.skip 2) := by
  have past : c.Past (spaces 2) (c.skip 2) := Cursor.past_skip ahead
  have after := past.rest_eq ahead
  have sameLine' : (c.skip 2).atLineEnd = false := by simp [Cursor.atLineEnd, after, sameLine]
  have column : (c.skip 2).column = 2 := by rw [past.column, atStart, length_spaces]
  have ahead : c.rest = ' ' :: ' ' :: d :: t := ahead
  have moves :
      (if indent = 0 then (c.run (· = ' ')).length else min (c.run (· = ' ')).length (indent - c.column)) = 2 := by
    rcases given with rfl | ⟨rfl, notSpace, -⟩
    · simp [Cursor.run, ahead, atStart]
    · simp [Cursor.run, ahead, notSpace]
  have noTab : ((indent = 0 || 2 < indent) && (c.skip 2).sees '\t') = false := by
    rcases given with rfl | ⟨rfl, -, notTab⟩
    · rfl
    · simp [Cursor.sees, after, notTab]
  rw [scanEmptyLines?]
  simp only [moves, column, noTab, sameLine', Bool.false_eq_true, if_false]

theorem scanEmptyLines?_end (ahead : c.rest = t) (flush : IsFlush t) (atStart : c.column = 0) :
    scanEmptyLines? 2 (fuel + 1) widest breaks c = some (widest, breaks, c) := by
  have none_ : c.run (· = ' ') = [] := by
    refine run_eq (l := []) ahead (List.forall_mem_nil _) (flush.head fun d space => ?_)
    rw [of_decide_eq_true space]
    rfl
  have noTab : c.sees '\t' = false := by
    rw [Cursor.sees, ahead, decide_eq_false_iff_not]
    intro tab
    obtain ⟨t, rfl⟩ := List.head?_eq_some_iff.mp tab
    cases flush
  have sameLine : c.atLineEnd = false := by
    rw [Cursor.atLineEnd, ahead]
    exact flush.head fun d lineEnd => by rw [isGap, lineEnd, Bool.or_true]
  rw [scanEmptyLines?, none_]
  simp [Cursor.skip_zero, noTab, sameLine, atStart]

theorem scanEmptyLines?_breaks (fuel widest : Nat) (breaks : List Char) (allBreaks : ∀ d ∈ bs, IsBreak d)
    (ahead : c.rest = bs ++ t) (atStart : c.column = 0) (enough : bs.length < fuel) :
    ∃ fuel' c', scanEmptyLines? 2 fuel widest breaks c = scanEmptyLines? 2 (fuel' + 1) widest (breaks ++ bs) c' ∧
      c'.rest = t ∧ c'.column = 0 := by
  induction bs generalizing c breaks fuel with
  | nil =>
    obtain ⟨fuel, rfl⟩ : ∃ more, fuel = more + 1 := ⟨fuel - 1, by omega⟩
    exact ⟨fuel, c, by rw [List.append_nil], ahead, atStart⟩
  | cons e bs ih =>
    obtain ⟨fuel, rfl⟩ : ∃ more, fuel = more + 1 := ⟨fuel - 1, by omega⟩
    obtain ⟨here, later⟩ := List.forall_mem_cons.mp allBreaks
    have ahead : c.rest = e :: (bs ++ t) := ahead
    let next : Cursor := ⟨bs ++ t, c.line + 1, 0, c.index + e.utf8Size⟩
    obtain ⟨fuel', c', scanned, after⟩ := @ih next fuel (breaks ++ [e]) later rfl rfl (by simpa using enough)
    refine ⟨fuel', c', ?_, after⟩
    rw [scanEmptyLines?_break here ahead atStart, scanned, List.append_assoc]
    rfl

/-- What is printed of a text from the start of a line on, after a line end, and what is read from there. -/
inductive LiteralBody (chomp : Chomp) : List Char → List Char → List Char → Prop where
  | ends {lastBreak bs : List Char} : (∀ d ∈ bs, IsBreak d) → LiteralBody chomp lastBreak bs (kept chomp lastBreak bs)
  | line {lastBreak bs l body text : List Char} {e : Char} : (∀ d ∈ bs, IsBreak d) → l ≠ [] →
      (∀ d ∈ l, isLineEnd d = false) → IsBreak e → LiteralBody chomp [e] body text →
      LiteralBody chomp lastBreak (bs ++ (spaces 2 ++ (l ++ e :: body))) (lastBreak ++ (bs ++ (l ++ text)))

theorem scanBlockLines?_of_literalBody (size fuel : Nat) (printed : LiteralBody chomp lastBreak body text)
    (flush : IsFlush more) (ahead : c.rest = body ++ more) (atStart : c.column = 0) (enough : body.length < fuel)
    (room : body.length ≤ size) :
    ∃ w bs c₁, scanEmptyLines? 2 (size + 2) 0 [] c = some (w, bs, c₁) ∧ ∀ before acc, ∃ c',
      scanBlockLines? true chomp 2 size fuel before acc lastBreak bs c₁ = some (acc ++ text, c') ∧
        c'.rest = more ∧ c'.column = 0 := by
  induction printed generalizing c fuel with
  | @ends lastBreak bs allBreaks =>
    obtain ⟨fuel, rfl⟩ : ∃ more, fuel = more + 1 := ⟨fuel - 1, by omega⟩
    obtain ⟨_, c₁, scanned, ahead₁, column⟩ := scanEmptyLines?_breaks (size + 2) 0 [] allBreaks
      ahead atStart (by omega)
    rw [scanEmptyLines?_end ahead₁ flush column] at scanned
    refine ⟨_, _, _, scanned, fun before acc => ⟨c₁, ?_, ahead₁, column⟩⟩
    unfold scanBlockLines?
    rw [column]
    cases chomp <;> rfl
  | @line lastBreak bs l body text e allBreaks some_ sameLine isBreak _ ih =>
    obtain ⟨fuel, rfl⟩ : ∃ more, fuel = more + 1 := ⟨fuel - 1, by omega⟩
    have ahead : c.rest = bs ++ (spaces 2 ++ (l ++ e :: (body ++ more))) := by simpa using ahead
    simp only [List.length_append, List.length_cons, length_spaces] at enough room
    obtain ⟨_, c₁, scanned, ahead₁, column₁⟩ := scanEmptyLines?_breaks (size + 2) 0 [] allBreaks
      ahead atStart (by omega)
    obtain ⟨d, l, rfl⟩ := List.exists_cons_of_ne_nil some_
    rw [scanEmptyLines?_line ahead₁ (sameLine d List.mem_cons_self) column₁ (.inl rfl)] at scanned
    have past : c₁.Past (spaces 2) (c₁.skip 2) := Cursor.past_skip ahead₁
    have ahead₂ := past.rest_eq ahead₁
    have past' := Cursor.past_skip ahead₂
    have ahead₃ := past'.rest_eq ahead₂
    obtain ⟨w, bs', c₃, scanned', read⟩ :=
      @ih ⟨body ++ more, ((c₁.skip 2).skip (d :: l).length).line + 1, 0, _⟩ fuel rfl rfl (by omega) (by omega)
    refine ⟨_, _, _, scanned, fun before acc => ?_⟩
    obtain ⟨c', found, after⟩ := read ((c₁.skip 2).rest.head?.any isSpaceOrTab) (acc ++ (lastBreak ++ bs) ++ (d :: l))
    refine ⟨c', ?_, after⟩
    have column₂ : (c₁.skip 2).column = 2 := by rw [past.column, column₁, length_spaces]
    have notAtEnd : (c₁.skip 2).atEnd = false := by simp [Cursor.atEnd, ahead₂]
    have line : (c₁.skip 2).run (!isLineEnd ·) = d :: l :=
      run_eq ahead₂ (fun x member => by simp [sameLine x member]) (by simp [isBreak.lineEnd])
    unfold scanBlockLines?
    rw [column₂, notAtEnd, line]
    simp only [decide_true, Bool.not_false, Bool.and_true, if_true, bind, List.nil_append]
    rw [Cursor.nextLine_of_break isBreak ahead₃, scanned', isBreak.breakHere ahead₃]
    have joins : ∀ after, joinLine true before after lastBreak bs = lastBreak ++ bs := fun _ => rfl
    rw [Option.bind_some, joins, found]
    simp

/-- What the line ends after the last line of a text count for, as its header says. -/
def Suits : Chomp → List Char → Prop
  | .all, cs => cs.getLast?.any isLineEnd = true
  | .one, cs => cs.getLast?.any isLineEnd = true ∧ cs.dropLast.getLast?.any (!isLineEnd ·) = true
  | .no, cs => cs.getLast?.any isLineEnd = false

def markOf : Chomp → List Char
  | .all => ['+']
  | .one => []
  | .no => ['-']

/-- The first line does not show the indentation. -/
def startsHidden (cs : List Char) : Bool := cs.head?.any fun d => d = ' ' || isLineEnd d

theorem exists_literalHeader (cs : List Char) :
    ∃ chomp, Suits chomp cs ∧ literalHeader cs = (if startsHidden cs then ['2'] else []) ++ markOf chomp := by
  unfold literalHeader
  rcases List.eq_nil_or_concat cs with rfl | ⟨front, a, rfl⟩
  · exact ⟨.no, rfl, rfl⟩
  cases last : isLineEnd a with
  | false =>
    refine ⟨.no, by simp [Suits, last], ?_⟩
    rcases List.eq_nil_or_concat front with rfl | ⟨front, b, rfl⟩ <;> simp [last, startsHidden, markOf]
  | true =>
    rcases List.eq_nil_or_concat front with rfl | ⟨front, b, rfl⟩
    · exact ⟨.all, by simp [Suits, last], by simp [last, startsHidden, markOf]⟩
    cases before : isLineEnd b with
    | false => exact ⟨.one, by simp [Suits, last, before], by simp [last, before, startsHidden, markOf]⟩
    | true => exact ⟨.all, by simp [Suits, last], by simp [last, before, startsHidden, markOf]⟩

theorem scanBlockHeader?_marks {hidden : Bool}
    (ahead : c.rest = (if hidden then ['2'] else []) ++ markOf chomp ++ '\n' :: t) :
    ∃ c', scanBlockHeader? c = some (chomp, if hidden then 2 else 0, c') ∧ c'.rest = '\n' :: t := by
  obtain ⟨rest, line, column, index⟩ := c
  obtain rfl : rest = _ := ahead
  cases hidden <;> cases chomp <;> exact ⟨_, rfl, rfl⟩

/-! ## Texts under a bar -/

theorem literalBody_breaks (ends : ∀ d ∈ bs, isLineEnd d = true) (cs : List Char) :
    literalBody n true (bs ++ cs) = bs ++ literalBody n true cs := by
  induction bs with
  | nil => rfl
  | cons d bs ih =>
    obtain ⟨here, later⟩ := List.forall_mem_cons.mp ends
    rw [List.cons_append, literalBody, if_pos here, ih later]
    rfl

theorem literalBody_same (sameLine : ∀ d ∈ l, isLineEnd d = false) (cs : List Char) :
    literalBody n false (l ++ cs) = l ++ literalBody n false cs := by
  induction l with
  | nil => rfl
  | cons d l ih =>
    obtain ⟨here, later⟩ := List.forall_mem_cons.mp sameLine
    rw [List.cons_append, literalBody, here, ih later]
    rfl

theorem literalBody_line (some_ : l ≠ []) (sameLine : ∀ d ∈ l, isLineEnd d = false) (cs : List Char) :
    literalBody n true (l ++ cs) = spaces n ++ (l ++ literalBody n false cs) := by
  obtain ⟨d, l, rfl⟩ := List.exists_cons_of_ne_nil some_
  obtain ⟨here, later⟩ := List.forall_mem_cons.mp sameLine
  rw [List.cons_append, literalBody, here, literalBody_same later]
  rfl

theorem mem_literalBody {b : Bool} (member : e ∈ literalBody n b cs) : e = ' ' ∨ e ∈ cs := by
  induction cs generalizing b with
  | nil => cases member
  | cons d cs ih =>
    have later : ∀ b, e ∈ literalBody n b cs → e = ' ' ∨ e ∈ d :: cs := fun b member =>
      (ih member).imp_right (List.mem_cons_of_mem d)
    rw [literalBody] at member
    split at member
    · rcases List.mem_cons.mp member with rfl | member
      · exact .inr List.mem_cons_self
      · exact later true member
    · rcases List.mem_append.mp member with front | member
      · split at front
        · exact .inl (List.eq_of_mem_replicate front)
        · cases front
      · rcases List.mem_cons.mp member with rfl | member
        · exact .inr List.mem_cons_self
        · exact later false member

/-- The line end of the last line where the text has none. -/
def finalBreak (cs : List Char) : List Char := if cs.getLast?.any isLineEnd then [] else ['\n']

theorem finalBreak_append (some_ : cs ≠ []) : finalBreak (l ++ cs) = finalBreak cs := by
  rw [finalBreak, finalBreak, List.getLast?_append, List.getLast?_eq_some_getLast some_, Option.some_or]

theorem Suits.of_append (suits : Suits chomp (l ++ e :: cs)) (lineEnd : isLineEnd e = true) (some_ : cs ≠ []) :
    Suits chomp cs := by
  have last : (l ++ e :: cs).getLast? = cs.getLast? := by
    rw [List.getLast?_append, List.getLast?_cons, List.getLast?_eq_some_getLast some_]
    rfl
  cases chomp with
  | all => exact (congrArg (Option.any isLineEnd) last).symm.trans suits
  | no => exact (congrArg (Option.any isLineEnd) last).symm.trans suits
  | one =>
    obtain ⟨ends, before⟩ := suits
    refine ⟨(congrArg (Option.any isLineEnd) last).symm.trans ends, ?_⟩
    have shape : (l ++ e :: cs).dropLast = l ++ e :: cs.dropLast := by
      rw [List.dropLast_append_of_ne_nil (List.cons_ne_nil _ _), List.dropLast_cons_of_ne_nil some_]
    rw [shape, List.getLast?_append, List.getLast?_cons] at before
    cases found : cs.dropLast.getLast? with
    | none => simp [found, lineEnd] at before
    | some d => simpa [found] using before

theorem literalBody_lineEnds (allBreaks : ∀ d ∈ bs, IsBreak d) (some_ : bs ≠ []) (suits : Suits chomp bs)
    (lastBreak : List Char) :
    LiteralBody chomp lastBreak (literalBody 2 true bs ++ finalBreak bs) (lastBreak ++ bs) := by
  have whole : literalBody 2 true bs = bs := by
    simpa [literalBody] using literalBody_breaks (n := 2) (fun d member => (allBreaks d member).lineEnd) []
  obtain ⟨front, d, rfl⟩ := (List.eq_nil_or_concat bs).resolve_left some_
  have lineEnd : isLineEnd d = true := (allBreaks d (by simp)).lineEnd
  have final : finalBreak (front.concat d) = [] := by simp [finalBreak, lineEnd]
  rw [whole, final, List.append_nil]
  cases chomp with
  | all => exact .ends allBreaks
  | no => simp [Suits, lineEnd] at suits
  | one =>
    have before := suits.2
    rcases List.eq_nil_or_concat front with rfl | ⟨front, e, rfl⟩
    · simp at before
    · simp [(allBreaks e (by simp)).lineEnd] at before

theorem literalBody_lastLine (allBreaks : ∀ d ∈ bs, IsBreak d) (some_ : l ≠ [])
    (sameLine : ∀ d ∈ l, isLineEnd d = false) (ends : t = [] ∨ ∃ e, t = [e] ∧ IsBreak e)
    (suits : Suits chomp (bs ++ (l ++ t))) (lastBreak : List Char) :
    LiteralBody chomp lastBreak
      (bs ++ (spaces 2 ++ (l ++ literalBody 2 false t)) ++ finalBreak (bs ++ (l ++ t)))
      (lastBreak ++ (bs ++ (l ++ t))) := by
  rcases ends with rfl | ⟨e, rfl, isBreak⟩
  · obtain ⟨front, d, rfl⟩ := (List.eq_nil_or_concat l).resolve_left some_
    have notEnd : isLineEnd d = false := sameLine d (by simp)
    have final : finalBreak (bs ++ (front.concat d ++ [])) = ['\n'] := by simp [finalBreak, notEnd]
    rw [final, literalBody]
    cases chomp with
    | all => simp [Suits, notEnd] at suits
    | one => simp [Suits, notEnd] at suits
    | no =>
      have line : LiteralBody .no lastBreak _ (lastBreak ++ (bs ++ (front.concat d ++ []))) :=
        .line allBreaks some_ sameLine isBreak_feed (.ends (List.forall_mem_nil _))
      simpa using line
  · have final : finalBreak (bs ++ (l ++ [e])) = [] := by simp [finalBreak, isBreak.lineEnd]
    have after : LiteralBody chomp [e] [] [e] := by
      cases chomp with
      | all => exact .ends (List.forall_mem_nil _)
      | one => exact .ends (List.forall_mem_nil _)
      | no => simp [Suits, isBreak.lineEnd] at suits
    have line : LiteralBody chomp lastBreak _ (lastBreak ++ (bs ++ (l ++ [e]))) :=
      .line allBreaks some_ sameLine isBreak after
    rw [final, literalBody, if_pos isBreak.lineEnd]
    simpa [literalBody] using line

theorem literalBody_printed (printable : ∀ d ∈ cs, isPrintable d = true) (suits : Suits chomp cs) (some_ : cs ≠ [])
    (lastBreak : List Char) :
    LiteralBody chomp lastBreak (literalBody 2 true cs ++ finalBreak cs) (lastBreak ++ cs) := by
  induction size : cs.length using Nat.strongRecOn generalizing cs lastBreak with
  | ind size ih =>
    obtain ⟨bs, r, rfl, ends, stops⟩ := exists_run isLineEnd cs
    have allBreaks : ∀ d ∈ bs, IsBreak d := fun d member =>
      ⟨ends d member, printable d (List.mem_append_left _ member)⟩
    obtain ⟨l, t, rfl, inLine, stops'⟩ := exists_run (!isLineEnd ·) r
    have sameLine : ∀ d ∈ l, isLineEnd d = false := fun d member => by simpa using inLine d member
    by_cases someLine : l = []
    · subst someLine
      have none_ : t = [] := by
        cases t with
        | nil => rfl
        | cons d t =>
          have lineEnd : isLineEnd d = false := stops
          simp [lineEnd] at stops'
      subst none_
      simp only [List.append_nil] at some_ suits ⊢
      exact literalBody_lineEnds allBreaks some_ suits lastBreak
    rw [literalBody_breaks ends, literalBody_line someLine sameLine]
    cases t with
    | nil => exact literalBody_lastLine allBreaks someLine sameLine (.inl rfl) suits lastBreak
    | cons e t =>
      have lineEnd : isLineEnd e = true := by simpa using stops'
      have isBreak : IsBreak e := ⟨lineEnd, printable e (by simp)⟩
      cases t with
      | nil => exact literalBody_lastLine allBreaks someLine sameLine (.inr ⟨e, rfl, isBreak⟩) suits lastBreak
      | cons x t =>
        -- the line end of this line is read with what comes next
        have whole : bs ++ (l ++ e :: x :: t) = (bs ++ l) ++ e :: x :: t := (List.append_assoc _ _ _).symm
        have last : bs ++ (l ++ e :: x :: t) = (bs ++ (l ++ [e])) ++ x :: t := by simp
        have printable' : ∀ y ∈ x :: t, isPrintable y = true := fun y member =>
          printable y (last ▸ List.mem_append_right _ member)
        have inner := ih (x :: t).length (by rw [← size]; simp; omega) printable'
          ((whole ▸ suits).of_append lineEnd (List.cons_ne_nil _ _)) (List.cons_ne_nil _ _) [e] rfl
        have line : LiteralBody chomp lastBreak _ (lastBreak ++ _) :=
          .line allBreaks someLine sameLine isBreak inner
        rw [literalBody, if_pos lineEnd, last, finalBreak_append (List.cons_ne_nil _ _)]
        simpa using line

theorem skipLineRest?_feed (ahead : c.rest = '\n' :: t) :
    ∃ c', c.skipLineRest? = some c' ∧ c'.rest = t ∧ c'.column = 0 := by
  obtain ⟨rest, line, column, index⟩ := c
  obtain rfl : rest = _ := ahead
  exact ⟨_, rfl, rfl, rfl⟩

/-- Where the first line shows it, the indentation is found by its spaces. -/
theorem scanEmptyLines?_shown (printable : ∀ d ∈ cs, isPrintable d = true) (some_ : cs ≠ [])
    (shown : startsHidden cs = false) (ahead : c.rest = literalBody 2 true cs ++ t) (atStart : c.column = 0)
    {indent : Nat} (given : indent = 2 ∨ indent = 0) :
    scanEmptyLines? indent (size + 2) 0 [] c = some (2, [], c.skip 2) := by
  obtain ⟨d, cs, rfl⟩ := List.exists_cons_of_ne_nil some_
  have notSpace : d ≠ ' ' := by
    rintro rfl
    cases shown
  have sameLine : isLineEnd d = false := by
    simp only [startsHidden, List.head?_cons, Option.any_some, Bool.or_eq_false_iff] at shown
    exact shown.2
  have notTab : d ≠ '\t' := by
    rintro rfl
    cases printable _ List.mem_cons_self
  rw [literalBody, sameLine] at ahead
  have ahead : c.rest = spaces 2 ++ d :: (literalBody 2 false cs ++ t) := by simpa using ahead
  exact scanEmptyLines?_line ahead sameLine atStart (given.imp_right fun zero => ⟨zero, notSpace, notTab⟩)

/-- A text under a bar is read as itself, and the line after it comes next. -/
theorem scanBlock?_literal (printable : ∀ d ∈ cs, isPrintable d = true) (some_ : cs ≠ []) (flush : IsFlush more)
    (ahead : c.rest = literalHeader cs ++ '\n' :: (literalBody 2 true cs ++ finalBreak cs ++ more))
    (room : c.rest.length ≤ size) :
    ∃ c', scanBlock? true 0 size c = some (cs, c') ∧ c'.rest = more ∧ c'.column = 0 := by
  obtain ⟨chomp, suits, header⟩ := exists_literalHeader cs
  rw [ahead] at room
  simp only [List.length_append, List.length_cons] at room
  rw [header] at ahead
  obtain ⟨c₁, marks, ahead₁⟩ := scanBlockHeader?_marks ahead
  obtain ⟨c₂, nextLine, ahead₂, atStart⟩ := skipLineRest?_feed ahead₁
  obtain ⟨w, bs, c₃, scanned, read⟩ := scanBlockLines?_of_literalBody size (size + 2)
    (literalBody_printed printable suits some_ []) flush ahead₂ atStart (by rw [List.length_append]; omega)
    (by rw [List.length_append]; omega)
  obtain ⟨c', found, after⟩ := read false []
  refine ⟨c', ?_, after⟩
  rw [scanBlock?, marks]
  simp only [bind, Option.bind_some, nextLine]
  cases hidden : startsHidden cs with
  | true => simp [scanned, found]
  | false =>
    have shown := fun indent => @scanEmptyLines?_shown c₂ (finalBreak cs ++ more) cs size printable some_ hidden
      (by rw [ahead₂, List.append_assoc]) atStart indent
    rw [shown 2 (.inl rfl), Option.some.injEq, Prod.mk.injEq, Prod.mk.injEq] at scanned
    obtain ⟨rfl, rfl, rfl⟩ := scanned
    simp [shown 0 (.inr rfl), found]

end Keyring.Yaml

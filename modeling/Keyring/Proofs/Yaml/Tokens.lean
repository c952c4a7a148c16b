import Keyring.Proofs.Yaml.Scalars
import Keyring.Yaml.Token.Lexer

/-!
# The tokens of a record of scalars

A record of scalars is written with a line for each field, or more where a scalar has more. The lexer goes from
line start to line start (`Lexer.Awaits`), and of each field it makes a key and a scalar that has its text.
-/

namespace Keyring.Yaml

variable {x y : Lexer} {c : Cursor} {t cs name more : List Char} {ts : List Token} {d e : Char} {fuel size n : Nat}

/-- A name of a field that stands plain, and that a key may be. -/
structure IsFieldName (name : String) : Prop where
  some_ : name.toList ≠ []
  chars : ∀ d ∈ name.toList, isNameChar d = true
  /-- So that its colon is within the reach of a key. -/
  short : name.toList.length ≤ 256
  own : readsAsOther name = false

instance (name : String) : Decidable (IsFieldName name) :=
  decidable_of_iff (name.toList ≠ [] ∧ name.toList.all isNameChar = true ∧ name.toList.length ≤ 256 ∧
    readsAsOther name = false)
    ⟨fun ⟨some_, chars, short, own⟩ => ⟨some_, List.all_eq_true.mp chars, short, own⟩,
      fun ⟨some_, chars, short, own⟩ => ⟨some_, List.all_eq_true.mpr chars, short, own⟩⟩

theorem seesDocumentLine_of_isNameChar (ahead : c.rest = d :: t) (isName : isNameChar d = true) :
    c.seesDocumentLine = false := by
  have noRule : ∀ e, isNameChar e = false → c.seesRule e = false := by
    intro e other
    simp [Cursor.seesRule, ahead, ne_of_isNameChar isName other]
  rw [Cursor.seesDocumentLine, noRule '-' rfl, noRule '.' rfl]
  rfl

theorem scanPlain?_name (limit : Int) (some_ : name ≠ []) (chars : ∀ d ∈ name, isNameChar d = true)
    (ahead : c.rest = name ++ ':' :: ' ' :: t) (room : c.rest.length ≤ size) :
    ∃ c', scanPlain? false limit size (size + 1) [] Gap.none c = some (name, false, c') ∧ c.Past name c' := by
  have ends : EndsWord (':' :: ' ' :: t) := by
    rintro _ _ ⟨⟩
    exact .inr ⟨rfl, rfl⟩
  have short : name.length < size + 1 := by
    rw [ahead, List.length_append] at room
    omega
  obtain ⟨c', found, past⟩ := scanPlainWord?_of_isWord (size + 1) [] (isWord_of_isNameChar chars _) ends ahead short
  refine ⟨c', ?_, past⟩
  obtain ⟨d, name, rfl⟩ := List.exists_cons_of_ne_nil some_
  have isName := chars d List.mem_cons_self
  have noSharp : c.sees '#' = false := by
    simp [Cursor.sees, ahead, ne_of_isNameChar isName (e := '#') rfl]
  have noGap : c'.rest.head?.any isGap = false := by
    rw [past.rest_eq ahead]
    rfl
  rw [scanPlain?, seesDocumentLine_of_isNameChar ahead isName, noSharp, found]
  simp [noGap, Gap.text, Gap.none]

namespace Lexer

theorem unroll_of_le {column : Int} (within : x.indent ≤ column) : x.unroll column = x := by
  unfold unroll
  split
  · rfl
  · cases x.outerIndents with
    | nil => rfl
    | cons outer more => rw [closeBlocks, if_neg (by omega)]

theorem toToken_spaces (fuel : Nat) (ahead : x.cursor.rest = spaces n ++ t) (flush : IsFlush t)
    (noSharp : t.head? ≠ some '#') (noMark : x.cursor.rest.head?.any isMark = false) :
    toToken (fuel + 1) x = { x with cursor := x.cursor.skip n } := by
  have after : (x.cursor.skip n).rest = t := by
    have past := Cursor.past_skip ahead
    rw [length_spaces] at past
    exact past.rest_eq ahead
  have spaces_ : ∀ tabs, x.cursor.run (fun d => d = ' ' || (tabs && d = '\t')) = spaces n := by
    intro tabs
    refine run_eq ahead (fun d member => ?_) (flush.head fun d blank => ?_)
    · rw [List.eq_of_mem_replicate member]
      rfl
    · simp only [Bool.or_eq_true, Bool.and_eq_true, decide_eq_true_eq] at blank
      rcases blank with rfl | ⟨-, rfl⟩ <;> rfl
  have noComment : (x.cursor.skip n).skipComment = x.cursor.skip n := by
    simp [Cursor.skipComment, Cursor.sees, after, noSharp]
  have sameLine : (x.cursor.skip n).atLineEnd = false := by
    rw [Cursor.atLineEnd, after]
    exact flush.head fun d lineEnd => by rw [isGap, lineEnd, Bool.or_true]
  rw [toToken]
  simp only [noMark, Bool.and_false, Bool.false_eq_true, if_false, Cursor.skipWhile, spaces_, length_spaces, noComment,
    sameLine]

/-- At the end of a line outside of flow collections a key may follow. -/
theorem toToken_feed (ahead : x.cursor.rest = '\n' :: t) (block : x.inFlow = false) :
    toToken (fuel + 1) x = toToken fuel { x with
      cursor := ⟨t, x.cursor.line + 1, 0, x.cursor.index + 1⟩
      keyAllowed := true } := by
  have none_ : ∀ tabs, x.cursor.run (fun d => d = ' ' || (tabs && d = '\t')) = [] := fun tabs =>
    run_eq (l := []) ahead (List.forall_mem_nil _) (by simp)
  have noMark : x.cursor.rest.head?.any isMark = false := by simp [ahead, isMark]
  have noComment : x.cursor.skipComment = x.cursor := by simp [Cursor.skipComment, Cursor.sees, ahead]
  have lineEnd : x.cursor.atLineEnd = true := by simp [Cursor.atLineEnd, ahead, isLineEnd]
  rw [toToken]
  simp only [noMark, Bool.and_false, Bool.false_eq_true, if_false, Cursor.skipWhile, none_, List.length_nil,
    Cursor.skip_zero, noComment, lineEnd, if_true, Cursor.nextLine_of_break isBreak_feed ahead, block, Bool.not_false,
    Bool.or_true]
  rfl

/-- Outside of flow collections, in the one block or before it, and nothing that may become a key before the token
that comes next. -/
structure Idle (x : Lexer) (ts : List Token) (cs : List Char) : Prop where
  rest : x.cursor.rest = cs
  done : x.done = ts.reverse
  count : x.count = ts.length
  places : x.places = [none]

/-- Before the first field, or in the block of the fields. -/
structure Within (x : Lexer) (ts : List Token) : Prop where
  indent : x.indent = if ts = [] then -1 else 0
  outerIndents : x.outerIndents = if ts = [] then [] else [-1]

/-- At the start of a line at which a field may start. -/
structure Awaits (x : Lexer) (ts : List Token) (cs : List Char) : Prop extends Idle x ts cs, Within x ts where
  column : x.cursor.column = 0
  keyAllowed : x.keyAllowed = true

structure AfterColon (x : Lexer) (ts : List Token) (cs : List Char) : Prop extends Idle x ts cs, Within x ts where
  started : ts ≠ []
  column : 0 < x.cursor.column
  keyAllowed : x.keyAllowed = false

theorem run?_token (next : toToken (size + 1) x = y) (within : y.indent ≤ y.cursor.column)
    (some_ : y.cursor.rest ≠ []) : run? (size + 1) x = (y.token? size).bind (run? size) := by
  have notAtEnd : y.cursor.atEnd = false := by simpa [Cursor.atEnd] using some_
  rw [run?, next]
  simp only [unroll_of_le within, notAtEnd, Bool.false_eq_true, if_false]

/-- A token that starts like a plain scalar is one. -/
theorem token?_plain (ahead : x.cursor.rest = d :: t) (notGap : isGap d = false)
    (noMark : "#,[]{}&*!|>'\"%@\x60".toList.contains d = false)
    (goesOn : (d = '?' || d = ':' || d = '-') = true → x.cursor.gapAt 1 = false)
    (noRule : x.cursor.seesDocumentLine = false) (block : x.inFlow = false) : x.token? size = x.plain? size := by
  have ne : ∀ e, "#,[]{}&*!|>'\"%@\x60".toList.contains e = true → d ≠ e := by
    rintro e mark rfl
    rw [noMark] at mark
    cases mark
  obtain ⟨noDashes, noDots⟩ := Bool.or_eq_false_iff.mp noRule
  have noFlowMark : x.token? size =
      if (d = '-' && x.cursor.gapAt 1) = true then x.dash?
      else if (d = '?' && x.cursor.gapAt 1) = true then x.key?
      else if (d = ':' && x.cursor.gapAt 1) = true then x.value?
      else if (!startsNoPlain d || (d = '-' && !(x.cursor.peek 1).any isSpaceOrTab)
        || ((d = '?' || d = ':') && !x.cursor.gapAt 1)) = true then x.plain? size
      else none := by
    simp only [token?, ahead, noDashes, noDots, block, ne '%' rfl, ne '[' rfl, ne ']' rfl, ne '{' rfl, ne '}' rfl,
      ne ',' rfl, ne '*' rfl, ne '&' rfl, ne '!' rfl, ne '|' rfl, ne '>' rfl, ne '\'' rfl, ne '"' rfl, decide_false,
      Bool.and_false, Bool.false_and, Bool.false_eq_true, if_false, Bool.false_or, Bool.not_false, Bool.true_and]
  rw [noFlowMark]
  cases special : (d = '?' || d = ':' || d = '-') with
  | true =>
    have noGapAfter := goesOn special
    have noBlank : (x.cursor.peek 1).any isSpaceOrTab = false := by
      rw [Cursor.gapAt] at noGapAfter
      cases found : x.cursor.peek 1 with
      | none => rfl
      | some e =>
        rw [found] at noGapAfter
        exact (Bool.or_eq_false_iff.mp noGapAfter).1
    simp only [Bool.or_eq_true, decide_eq_true_eq] at special
    rcases special with (rfl | rfl) | rfl <;> simp [noGapAfter, noBlank]
  | false =>
    simp only [Bool.or_eq_false_iff, decide_eq_false_iff_not] at special
    have starts : startsNoPlain d = false := by
      simp [startsNoPlain, notGap, special, ne ',' rfl, ne '[' rfl, ne ']' rfl, ne '{' rfl, ne '}' rfl, ne '#' rfl,
        ne '&' rfl, ne '*' rfl, ne '!' rfl, ne '|' rfl, ne '>' rfl, ne '\'' rfl, ne '"' rfl, ne '%' rfl, ne '@' rfl,
        ne '\x60' rfl]
    simp [special, starts]

/-! ## A field -/

/-- After the name of a field, at its colon. -/
structure AfterName (x : Lexer) (ts : List Token) (name : String) (cs : List Char) : Prop extends Within x ts where
  rest : x.cursor.rest = ':' :: ' ' :: cs
  column : 0 < x.cursor.column
  done : x.done = .scalar .plain name :: ts.reverse
  count : x.count = ts.length + 1
  place : ∃ p, x.places = [some p] ∧ p.position = ts.length ∧ p.line = x.cursor.line ∧ p.column = 0 ∧
    x.cursor.index ≤ p.index + keyReach

theorem run?_name (size : Nat) {name : String} (isName : IsFieldName name)
    (awaits : x.Awaits ts (name.toList ++ ':' :: ' ' :: cs)) (room : x.cursor.rest.length ≤ size) :
    ∃ y, run? (size + 1) x = run? size y ∧ y.AfterName ts name cs := by
  obtain ⟨d, more, shape⟩ := List.exists_cons_of_ne_nil isName.some_
  have ahead := awaits.rest
  obtain ⟨c', found, past⟩ := scanPlain?_name (x.indent + 1) isName.some_ isName.chars ahead room
  have isNameChar_ := isName.chars d (shape ▸ List.mem_cons_self)
  have ne : ∀ e, isNameChar e = false → d ≠ e := fun e => ne_of_isNameChar isNameChar_
  rw [shape] at ahead
  have here : toToken (size + 1) x = x := by
    have stays := toToken_spaces size (n := 0) ahead (isFlush_cons.mpr (isGap_of_isNameChar isNameChar_))
      (by simp [ne '#' rfl]) (by simp [ahead, isMark, ne '\uFEFF' rfl])
    rw [stays, Cursor.skip_zero]
  have block : x.inFlow = false := by simp [inFlow, awaits.places]
  have within : x.indent ≤ x.cursor.column := by
    rw [awaits.indent]
    split <;> omega
  have noMark : startsWithMark (d :: more) = false := startsWithMark_of_isNameChar (shape ▸ isName.chars)
  rw [startsWithMark, Bool.or_eq_false_iff] at noMark
  have plain : x.token? size = x.plain? size := by
    refine token?_plain ahead (isGap_of_isNameChar isNameChar_) noMark.1 ?_ ?_ block
    · simp [ne '?' rfl, ne ':' rfl, ne '-' rfl]
    · exact seesDocumentLine_of_isNameChar ahead isNameChar_
  rw [run?_token here within (by simp [ahead]), plain, plain?, savePlace?]
  simp only [awaits.keyAllowed, if_true, dropPlace?, awaits.places, bind, Option.bind_some, inFlow, List.tail_cons,
    List.isEmpty_nil, Bool.not_true, found]
  refine ⟨_, rfl, ⟨⟨awaits.indent, awaits.outerIndents⟩, ?_, ?_, ?_, ?_, ?_⟩⟩
  · exact past.rest_eq awaits.rest
  · have := past.column
    rw [shape, List.length_cons] at this
    show 0 < c'.column
    omega
  · show Token.scalar .plain (String.ofList name.toList) :: x.done = _
    rw [String.ofList_toList, awaits.done]
  · show x.count + 1 = _
    rw [awaits.count]
  · refine ⟨_, rfl, awaits.count, past.line.symm, awaits.column, ?_⟩
    have := past.index
    have := isName.short
    show c'.index ≤ x.cursor.index + keyReach
    unfold keyReach
    omega

/-- What the first field puts before its tokens. -/
def opening (ts : List Token) : List Token := if ts = [] then [.blockMappingStart] else []

theorem run?_colon (size : Nat) {name : String} (after : x.AfterName ts name cs) :
    ∃ y, run? (size + 1) x = run? size y ∧
      y.AfterColon (opening ts ++ ts ++ [.key, .scalar .plain name, .value]) (' ' :: cs) := by
  have ahead := after.rest
  obtain ⟨p, places, position, line, column, reach⟩ := after.place
  have block : x.inFlow = false := by simp [inFlow, places]
  have here : toToken (size + 1) x = x := by
    have stays := toToken_spaces size (n := 0) ahead (isFlush_cons.mpr rfl) (by simp) (by simp [ahead, isMark])
    rw [stays, Cursor.skip_zero]
  have within : x.indent ≤ x.cursor.column := by
    rw [after.indent]
    split <;> omega
  have colon : x.token? size = x.value? := by
    have right := after.column
    have noRule := Cursor.seesDocumentLine_eq_false right
    obtain ⟨noDashes, noDots⟩ := Bool.or_eq_false_iff.mp noRule
    have gap : x.cursor.gapAt 1 = true := by simp [Cursor.gapAt, Cursor.peek, ahead, endOr, isGap, isSpaceOrTab]
    simp [token?, ahead, noDashes, noDots, block, gap]
  have keyHere : x.keyHere? = some (some p) := by
    have sameLine : ¬p.line < x.cursor.line := by omega
    have near : ¬p.index + keyReach < x.cursor.index := by omega
    simp [keyHere?, places, sameLine, near]
  -- the key's token goes before the name, and before the first name the block is opened
  have rolled : (x.insert p.position .key).roll p.column p.position .blockMappingStart = { x with
      done := .scalar .plain name :: .key :: (opening ts ++ ts).reverse
      count := x.count + 1 + (opening ts).length
      indent := 0
      outerIndents := [-1] } := by
    have inserted : x.done.insertIdx (x.count - p.position) .key = .scalar .plain name :: .key :: ts.reverse := by
      rw [after.done, after.count, position, Nat.add_sub_cancel_left]
      rfl
    have outside : (x.insert p.position .key).inFlow = false := block
    rw [roll, outside]
    by_cases first : ts = []
    · subst first
      have indent : x.indent = -1 := after.indent
      have outer : x.outerIndents = [] := after.outerIndents
      have count : x.count = 1 := after.count
      have position : p.position = 0 := position
      rw [position, count] at inserted
      simp [insert, column, indent, outer, count, position, inserted, opening]
    · have indent : x.indent = 0 := after.indent.trans (if_neg first)
      have outer : x.outerIndents = [-1] := after.outerIndents.trans (if_neg first)
      simp [insert, column, indent, inserted, opening, first, ← outer]
  rw [run?_token here within (by simp [ahead]), colon, value?, keyHere]
  simp only [bind, Option.bind_some]
  rw [rolled]
  have past := Cursor.past_skip_one ahead
  refine ⟨_, rfl, ⟨⟨past.rest_eq ahead, ?_, ?_, ?_⟩, ⟨?_, ?_⟩, by simp, ?_, rfl⟩⟩
  · simp [take, add, allow]
  · simp only [take, add, allow, after.count]
    simp
    omega
  · simp [take, add, allow, places]
  · simp [take, add, allow]
  · simp [take, add, allow]
  · have := past.column
    simp only [List.length_singleton] at this
    show 0 < (x.cursor.skip 1).column
    omega

/-! ## The scalar of a field -/

/-- Another field comes next, or nothing. -/
def StartsField (cs : List Char) : Prop := ∀ d, cs.head? = some d → isNameChar d = true

theorem StartsField.isFlush (starts : StartsField cs) : IsFlush cs := by
  cases cs with
  | nil => exact isFlush_nil
  | cons d cs => exact isFlush_cons.mpr (isGap_of_isNameChar (starts d rfl))

theorem StartsField.head_ne (starts : StartsField cs) (other : isNameChar e = false) : cs.head? ≠ some e := by
  intro first
  rw [starts e first] at other
  cases other

theorem Awaits.toToken_eq (awaits : x.Awaits ts cs) (starts : StartsField cs) (fuel : Nat) : toToken fuel x = x := by
  cases fuel with
  | zero => rfl
  | succ fuel =>
    have noMark : cs.head?.any isMark = false := by
      cases cs with
      | nil => rfl
      | cons d cs => simp [isMark, ne_of_isNameChar (starts d rfl) (e := '\uFEFF') rfl]
    rw [toToken_spaces fuel (n := 0) awaits.rest starts.isFlush (starts.head_ne rfl) (awaits.rest ▸ noMark),
      Cursor.skip_zero]

/-- The line end after a quoted scalar is passed before the next token. -/
theorem run?_feed (ahead : x.cursor.rest = '\n' :: cs) (block : x.inFlow = false)
    (awaits : Awaits { x with cursor := ⟨cs, x.cursor.line + 1, 0, x.cursor.index + 1⟩, keyAllowed := true } ts cs)
    (starts : StartsField cs) :
    run? (size + 1) x =
      run? (size + 1) { x with cursor := ⟨cs, x.cursor.line + 1, 0, x.cursor.index + 1⟩, keyAllowed := true } := by
  rw [run?, run?, toToken_feed ahead block, awaits.toToken_eq starts, awaits.toToken_eq starts]

/-- After the colon and the space after it, a scalar is the next token. -/
theorem run?_space (size : Nat) (after : x.AfterColon ts (' ' :: cs)) (some_ : cs ≠ []) (flush : IsFlush cs)
    (noSharp : cs.head? ≠ some '#') :
    ∃ y : Lexer, run? (size + 1) x = (y.token? size).bind (run? size) ∧ y.AfterColon ts cs := by
  have ahead : x.cursor.rest = spaces 1 ++ cs := after.rest
  have past := Cursor.past_skip ahead
  have next : toToken (size + 1) x = { x with cursor := x.cursor.skip 1 } :=
    toToken_spaces size ahead flush noSharp (by rw [ahead]; rfl)
  have started := after.started
  have indent : x.indent = 0 := after.indent.trans (if_neg started)
  refine ⟨{ x with cursor := x.cursor.skip 1 }, ?_, ⟨⟨past.rest_eq ahead, after.done, after.count, after.places⟩,
    ⟨after.indent, after.outerIndents⟩, started, ?_, after.keyAllowed⟩⟩
  · refine run?_token next ?_ ?_
    · show x.indent ≤ _
      rw [indent]
      exact Int.natCast_nonneg _
    · show (x.cursor.skip 1).rest ≠ []
      rw [show (x.cursor.skip 1).rest = cs from past.rest_eq ahead]
      exact some_
  · exact Nat.succ_pos _

theorem AfterColon.savePlace? (after : x.AfterColon ts cs) : x.savePlace? = some x := by
  simp [Lexer.savePlace?, after.keyAllowed]

theorem AfterColon.inFlow (after : x.AfterColon ts cs) : x.inFlow = false := by
  simp [Lexer.inFlow, after.places]

theorem AfterColon.indent_eq (after : x.AfterColon ts cs) : x.indent = 0 :=
  after.indent.trans (if_neg after.started)

/-- Once the scalar is read the next line is at hand. -/
theorem AfterColon.awaits (after : x.AfterColon ts cs) (token : Token) (rest : c.rest = more) (column : c.column = 0) :
    Awaits { (x.allow true).add token with cursor := c } (ts ++ [token]) more where
  rest := rest
  done := by simp [add, allow, after.done]
  count := by simp [add, allow, after.count]
  places := after.places
  indent := by simp [add, allow, after.indent_eq]
  outerIndents := by simpa [add, allow, after.started] using after.outerIndents
  column := column
  keyAllowed := rfl

theorem token?_quoted {single : Bool} {body : List Char} (quoted : QuotedBody single cs body)
    (after : x.AfterColon ts (quoteOf single :: (body ++ quoteOf single :: '\n' :: more))) (starts : StartsField more)
    (room : x.cursor.rest.length ≤ size) :
    ∃ y, (x.token? size).bind (run? size) = run? size y ∧
      y.Awaits (ts ++ [.scalar (if single then .singleQuoted else .doubleQuoted) (String.ofList cs)]) more := by
  have ahead := after.rest
  obtain ⟨noDashes, noDots⟩ := Bool.or_eq_false_iff.mp (Cursor.seesDocumentLine_eq_false after.column)
  have past := Cursor.past_skip_one ahead
  have short : cs.length < size + 1 := by
    have := quoted.length_le
    rw [ahead, List.length_cons, List.length_append] at room
    omega
  obtain ⟨c', found, rest⟩ := @scanQuoted?_of_quotedBody single (x.cursor.skip 1) cs body more [] (size + 1) size quoted
    (past.rest_eq ahead) (Nat.succ_pos _) short (Nat.le_trans past.length_le room)
  have token : x.token? size = x.quoted? size single := by
    cases single <;> simp [token?, ahead, noDashes, noDots, after.inFlow, quoteOf]
  obtain ⟨size, rfl⟩ : ∃ more, size = more + 1 := by
    rw [ahead, List.length_cons] at room
    exact ⟨size - 1, by omega⟩
  have awaits := after.awaits (c := ⟨more, c'.line + 1, 0, c'.index + 1⟩)
    (.scalar (if single then .singleQuoted else .doubleQuoted) (String.ofList cs)) rfl rfl
  refine ⟨_, ?_, awaits⟩
  rw [token, quoted?, node?, after.savePlace?]
  simp only [bind, Option.bind_some, found, Option.map_some]
  exact run?_feed rest after.inFlow awaits starts

theorem token?_scalar (size : Nat) {style : Style} {lines : List Char} (scalar : ScalarLines style cs lines)
    (after : x.AfterColon ts (lines ++ more)) (starts : StartsField more) (room : (lines ++ more).length ≤ size) :
    ∃ y, (x.token? size).bind (run? size) = run? size y ∧
      y.Awaits (ts ++ [.scalar style (String.ofList cs)]) more := by
  have ahead := after.rest
  have indent := after.indent_eq
  have noRule := Cursor.seesDocumentLine_eq_false after.column
  obtain ⟨noDashes, noDots⟩ := Bool.or_eq_false_iff.mp noRule
  have right := after.column
  rw [← ahead] at room
  cases scalar with
  | plain some_ text noMark =>
    have ahead : x.cursor.rest = cs ++ '\n' :: more := by simpa using ahead
    obtain ⟨c', found, rest, column⟩ := @scanPlain?_of_plainText x.cursor cs more [] (size + 1) size Gap.none
      (plainText_of_isPlainRest some_ text more) starts.isFlush ahead right
      (by rw [ahead, List.length_append] at room; omega) room
    obtain ⟨d, cs, rfl⟩ := List.exists_cons_of_ne_nil some_
    rw [startsWithMark, Bool.or_eq_false_iff] at noMark
    have plain : x.token? size = x.plain? size := by
      have notGap : isGap d = false := (plainText_of_isPlainRest some_ text more).isFlush (t := [])
      refine token?_plain ahead notGap noMark.1 (fun special => ?_) noRule after.inFlow
      have goesOn := noMark.2
      rw [special, Bool.true_and] at goesOn
      cases cs with
      | nil => cases goesOn
      | cons e cs => simpa [Cursor.gapAt, Cursor.peek, ahead] using goesOn
    have read : scanPlain? x.inFlow (x.indent + 1) size (size + 1) [] Gap.none x.cursor = some (d :: cs, true, c') := by
      rw [after.inFlow, indent]
      exact found
    refine ⟨_, ?_, after.awaits (.scalar .plain (String.ofList (d :: cs))) rest column⟩
    rw [plain, plain?, after.savePlace?]
    simp only [bind, Option.bind_some, read]
  | literal some_ printable =>
    have ahead : x.cursor.rest =
        '|' :: (literalHeader cs ++ '\n' :: (literalBody 2 true cs ++ finalBreak cs ++ more)) := by simpa using ahead
    have past := Cursor.past_skip_one ahead
    obtain ⟨c', found, rest, column⟩ := @scanBlock?_literal (x.cursor.skip 1) cs more size printable some_
      starts.isFlush (past.rest_eq ahead) (Nat.le_trans past.length_le room)
    have block : x.token? size = x.block? size true := by
      simp [token?, ahead, noDashes, noDots, after.inFlow]
    refine ⟨_, ?_, after.awaits (.scalar .literal (String.ofList cs)) rest column⟩
    rw [block, block?, dropPlace?, after.places]
    simp only [bind, Option.bind_some, indent, found]
    rfl
  | single quotable => exact token?_quoted (quotedBody_single quotable) (by simpa [quoteOf] using after) starts room
  | double => exact token?_quoted (quotedBody_double cs) (by simpa [quoteOf] using after) starts room

end Lexer

/-- Fields that stand line by line: their names are names, and their values are scalars. -/
def IsFlat (fields : List (String × Data)) : Prop := ∀ f ∈ fields, IsFieldName f.1 ∧ IsScalar f.2

def fieldTokens (fields : List (String × Data)) : List Token :=
  fields.flatMap fun (name, d) => [.key, .scalar .plain name, .value, .scalar (scalarOf d).1 (scalarOf d).2]

theorem IsFlat.startsField {fields : List (String × Data)} (flat : IsFlat fields) :
    Lexer.StartsField (fieldLines 0 fields) := by
  intro d first
  cases fields with
  | nil => cases first
  | cons f fields =>
    obtain ⟨name, value⟩ := f
    have isName := (flat _ List.mem_cons_self).1
    obtain ⟨e, more, shape⟩ := List.exists_cons_of_ne_nil isName.some_
    have same : e = d := by simpa [fieldLines, spaces, shape] using first
    exact same ▸ isName.chars e (shape ▸ List.mem_cons_self)

namespace Lexer

/-- At the end of the text the block of the fields is closed. -/
theorem run?_end (size : Nat) (awaits : x.Awaits ts []) (started : ts ≠ []) :
    ∃ y, run? (size + 1) x = some y ∧ y.done.reverse = ts ++ [.blockEnd] := by
  have indent : x.indent = 0 := awaits.indent.trans (if_neg started)
  have outer : x.outerIndents = [-1] := awaits.outerIndents.trans (if_neg started)
  have atEnd : x.cursor.atEnd = true := by simp [Cursor.atEnd, awaits.rest]
  have block : x.inFlow = false := by simp [inFlow, awaits.places]
  have here : x.unroll x.cursor.column = x := by
    refine unroll_of_le ?_
    rw [indent]
    exact Int.natCast_nonneg _
  have closed : x.unroll (-1) = { x.add .blockEnd with indent := -1, outerIndents := [] } := by
    simp [unroll, block, outer, closeBlocks, indent]
  rw [run?, awaits.toToken_eq (fun d none_ => by cases none_), here, atEnd]
  refine ⟨{ x.add .blockEnd with indent := -1, outerIndents := [] }, ?_, ?_⟩
  · simp [finish?, closed, dropPlace?, add, awaits.places]
  · simp [add, awaits.done]

theorem run?_fields {fields : List (String × Data)} (flat : IsFlat fields) (some_ : ts = [] → fields ≠ [])
    (awaits : x.Awaits ts (fieldLines 0 fields)) (room : x.cursor.rest.length < size) :
    ∃ y, run? size x = some y ∧ y.done.reverse = opening ts ++ ts ++ fieldTokens fields ++ [.blockEnd] := by
  induction fields generalizing x ts size with
  | nil =>
    have started : ts ≠ [] := fun none_ => some_ none_ rfl
    obtain ⟨size, rfl⟩ : ∃ more, size = more + 1 := ⟨size - 1, by omega⟩
    obtain ⟨y, run, done⟩ := run?_end size awaits started
    exact ⟨y, run, by rw [done, opening, if_neg started]; simp [fieldTokens]⟩
  | cons f fields ih =>
    obtain ⟨name, d⟩ := f
    obtain ⟨isName, scalar⟩ := flat _ List.mem_cons_self
    have later : IsFlat fields := fun f member => flat f (List.mem_cons_of_mem _ member)
    obtain ⟨lines, shape, stands⟩ := exists_scalarLines scalar
    have split : fieldLines 0 ((name, d) :: fields) =
        name.toList ++ ':' :: ' ' :: (lines ++ fieldLines 0 fields) := by
      simp [fieldLines, spaces, shape]
    have nameLong : 0 < name.toList.length := List.length_pos_iff.mpr isName.some_
    rw [split] at awaits
    rw [awaits.rest] at room
    simp only [List.length_append, List.length_cons] at room
    obtain ⟨size, rfl⟩ : ∃ more, size = more + 3 := ⟨size - 3, by omega⟩
    obtain ⟨y₁, run₁, named⟩ := run?_name (size + 2) isName awaits (by
      rw [awaits.rest]
      simp only [List.length_append, List.length_cons]
      omega)
    obtain ⟨y₂, run₂, colon⟩ := run?_colon (size + 1) named
    obtain ⟨someLine, flush, noSharp⟩ := stands.starts (fieldLines 0 fields)
    obtain ⟨y₃, run₃, atScalar⟩ := run?_space size colon someLine flush noSharp
    obtain ⟨y, token, awaits'⟩ := token?_scalar size stands atScalar later.startsField (by
      rw [List.length_append]
      omega)
    rw [String.ofList_toList] at awaits'
    obtain ⟨z, run, done⟩ := @ih y _ size later (fun none_ => by simp at none_) awaits' (by
      rw [awaits'.rest]
      omega)
    refine ⟨z, ?_, ?_⟩
    · rw [run₁, run₂, run₃, token, run]
    · rw [done]
      simp [opening, fieldTokens]

end Lexer

theorem IsFlat.allowed {fields : List (String × Data)} (flat : IsFlat fields) :
    ∀ e ∈ fieldLines 0 fields, isAllowed e = true := by
  induction fields with
  | nil => exact List.forall_mem_nil _
  | cons f fields ih =>
    obtain ⟨name, d⟩ := f
    obtain ⟨isName, scalar⟩ := flat _ List.mem_cons_self
    obtain ⟨lines, shape, stands⟩ := exists_scalarLines scalar
    have later := ih fun f member => flat f (List.mem_cons_of_mem _ member)
    have colon : ∀ e ∈ [':', ' '], isAllowed e = true := List.all_eq_true.mp (by decide)
    have split :
        fieldLines 0 ((name, d) :: fields) = name.toList ++ ([':', ' '] ++ (lines ++ fieldLines 0 fields)) := by
      simp [fieldLines, spaces, shape]
    rw [split]
    simp only [List.forall_mem_append]
    exact ⟨fun e member => isAllowed_of_isPrintable (isPrintable_of_isNameChar (isName.chars e member)), colon,
      stands.allowed, later⟩

theorem scan?_record {fields : List (String × Data)} (flat : IsFlat fields) (some_ : fields ≠ []) :
    Token.scan? (documentText (.record fields)) = some (.blockMappingStart :: (fieldTokens fields ++ [.blockEnd])) := by
  have start : (Lexer.start (fieldLines 0 fields)).Awaits [] (fieldLines 0 fields) :=
    ⟨⟨rfl, rfl, rfl, rfl⟩, ⟨rfl, rfl⟩, rfl, rfl⟩
  obtain ⟨y, run, done⟩ := Lexer.run?_fields flat (fun _ => some_) start (Nat.lt_succ_self _)
  have allowed : (fieldLines 0 fields).all isAllowed = true := List.all_eq_true.mpr flat.allowed
  rw [Token.scan?, documentText, String.toList_ofList]
  have run : Lexer.run? ((fieldLines 0 fields).length + 1) (Lexer.start (fieldLines 0 fields)) = some y := run
  simp only [allowed, if_true, run, Option.map_some, done]
  rfl

end Keyring.Yaml

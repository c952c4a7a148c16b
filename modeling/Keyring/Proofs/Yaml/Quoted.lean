import Keyring.Proofs.Text.Numeral
import Keyring.Proofs.Yaml.Cursor

/-!
# Quoted scalars there and back

Between quotes a text stands as words with gaps between them, of spaces or of line ends (`QuotedBody`). In single
quotes only the quote is spelled otherwise than it is, in double quotes all that is no space and not printable on
one line.
-/

namespace Keyring.Yaml

variable {single : Bool} {c : Cursor} {w t ds cs body more acc : List Char} {d e : Char} {fuel size n : Nat}

def quoteOf (single : Bool) : Char := if single then '\'' else '"'

/-- Wherever they stand in a word, these characters are read as one. -/
structure Spells (single : Bool) (d : Char) (ds : List Char) : Prop where
  some_ : ds ≠ []
  read : ∀ c t fuel acc, c.rest = ds ++ t → ∃ c', c.Past ds c' ∧
    scanQuotedWord? single (fuel + 1) acc c = scanQuotedWord? single fuel (d :: acc) c'

inductive IsQuotedWord (single : Bool) : List Char → List Char → Prop where
  | nil : IsQuotedWord single [] []
  | cons {d : Char} {w ds body : List Char} : Spells single d ds → IsQuotedWord single w body →
      IsQuotedWord single (d :: w) (ds ++ body)

/-- A gap comes next, or the closing quote with the end of the line after it. -/
def EndsQuotedWord (single : Bool) (t : List Char) : Prop :=
  t.head?.any isGap = true ∨ ∃ more, t = quoteOf single :: '\n' :: more

theorem scanQuotedWord?_of_isQuotedWord (fuel : Nat) (acc : List Char) (word : IsQuotedWord single w body)
    (ends : EndsQuotedWord single t) (ahead : c.rest = body ++ t) (enough : w.length < fuel) :
    ∃ c', scanQuotedWord? single fuel acc c = some (acc.reverse ++ w, false, c') ∧ c.Past body c' := by
  induction word generalizing c acc fuel with
  | nil =>
    obtain ⟨fuel, rfl⟩ : ∃ more, fuel = more + 1 := ⟨fuel - 1, by omega⟩
    refine ⟨c, ?_, .refl c⟩
    have ahead : c.rest = t := ahead
    rw [scanQuotedWord?, ahead]
    rcases ends with gap | ⟨more, rfl⟩
    · obtain ⟨d, t, rfl, here⟩ := exists_gap gap
      simp [here]
    · cases single <;> simp [quoteOf]
  | @cons d w ds body spells _ ih =>
    obtain ⟨fuel, rfl⟩ : ∃ more, fuel = more + 1 := ⟨fuel - 1, by omega⟩
    have ahead : c.rest = ds ++ (body ++ t) := by rw [ahead, List.append_assoc]
    obtain ⟨c₁, first, step⟩ := spells.read c (body ++ t) fuel acc ahead
    obtain ⟨c', found, past⟩ := @ih c₁ fuel (d :: acc) (first.rest_eq ahead) (by simpa using enough)
    refine ⟨c', ?_, first.trans past⟩
    rw [step, found]
    simp

/-! ## Rows of words -/

/-- A text and what stands for it between the quotes. -/
inductive QuotedBody (single : Bool) : List Char → List Char → Prop where
  | last {w ds : List Char} : IsQuotedWord single w ds → QuotedBody single w ds
  | spaces {w ds cs body : List Char} {n : Nat} : IsQuotedWord single w ds → QuotedBody single cs body → IsFlush body →
      QuotedBody single (w ++ (spaces (n + 1) ++ cs)) (ds ++ (spaces (n + 1) ++ body))
  /-- Line ends stand as they are; the next line is indented. -/
  | breaks {w ds cs body bs : List Char} {e : Char} : IsQuotedWord single w ds → (∀ d ∈ e :: bs, IsBreak d) → e ≠ '\n' →
      QuotedBody single cs body → IsFlush body →
      QuotedBody single (w ++ (e :: bs ++ cs)) (ds ++ (e :: bs ++ (Yaml.spaces 2 ++ body)))

theorem IsQuotedWord.length_le (word : IsQuotedWord single w ds) : w.length ≤ ds.length := by
  induction word with
  | nil => exact Nat.le_refl 0
  | cons spells _ ih =>
    have := List.length_pos_iff.mpr spells.some_
    simp only [List.length_cons, List.length_append]
    omega

theorem QuotedBody.length_le (quoted : QuotedBody single cs body) : cs.length ≤ body.length := by
  induction quoted with
  | last word => exact word.length_le
  | spaces word _ _ ih =>
    have := word.length_le
    simp only [List.length_append]
    omega
  | breaks word _ _ _ _ ih =>
    have := word.length_le
    simp only [List.length_append]
    omega

theorem isGap_quoteOf (single : Bool) : isGap (quoteOf single) = false := by cases single <;> rfl

theorem IsFlush.quote (flush : IsFlush body) : IsFlush (body ++ quoteOf single :: more) := by
  cases body with
  | nil => exact isFlush_cons.mpr (isGap_quoteOf single)
  | cons => exact flush

theorem scanQuoted?_word (fuel : Nat) (acc : List Char) (word : IsQuotedWord single w ds)
    (gap : t.head?.any isGap = true) (ahead : c.rest = ds ++ t) (right : 0 < c.column)
    (room : c.rest.length ≤ size) :
    ∃ c', c.Past ds c' ∧ scanQuoted? single size (fuel + 1) acc c =
      (scanGap? 0 (size + 1) Gap.none c').bind fun (next, c'') =>
        scanQuoted? single size fuel (acc ++ w ++ next.text) c'' := by
  have short := word.length_le
  rw [ahead, List.length_append] at room
  obtain ⟨c', found, past⟩ := scanQuotedWord?_of_isQuotedWord (c := c) (size + 1) [] word (.inl gap)
    ahead (by omega)
  obtain ⟨d, t, rfl, isGap⟩ := exists_gap gap
  have notAtEnd : c.atEnd = false := by simp [Cursor.atEnd, ahead]
  have notQuote : c'.sees (quoteOf single) = false := by
    have other : d ≠ quoteOf single := by
      rintro rfl
      rw [isGap_quoteOf] at isGap
      cases isGap
    simp [Cursor.sees, past.rest_eq ahead, other]
  refine ⟨c', past, ?_⟩
  rw [scanQuoted?, Cursor.seesDocumentLine_eq_false right, notAtEnd, found]
  have notQuote : c'.sees (if single then '\'' else '"') = false := notQuote
  simp only [Bool.or_self, Bool.false_eq_true, if_false, bind, Option.bind_some, List.reverse_nil, List.nil_append,
    notQuote]
  rfl

theorem scanQuoted?_of_quotedBody (quoted : QuotedBody single cs body)
    (ahead : c.rest = body ++ quoteOf single :: '\n' :: more) (right : 0 < c.column) (enough : cs.length < fuel)
    (room : c.rest.length ≤ size) :
    ∃ c', scanQuoted? single size fuel acc c = some (acc ++ cs, c') ∧ c'.rest = '\n' :: more := by
  induction quoted generalizing c acc fuel with
  | @last w ds word =>
    obtain ⟨fuel, rfl⟩ : ∃ more, fuel = more + 1 := ⟨fuel - 1, by omega⟩
    have short := word.length_le
    obtain ⟨c', found, past⟩ := scanQuotedWord?_of_isQuotedWord (size + 1) [] word (.inr ⟨more, rfl⟩)
      ahead (by rw [ahead, List.length_append] at room; omega)
    have notAtEnd : c.atEnd = false := by simp [Cursor.atEnd, ahead]
    have ahead' := past.rest_eq ahead
    have quote : c'.sees (if single then '\'' else '"') = true := by
      simp [Cursor.sees, ahead', quoteOf]
    refine ⟨c'.skip 1, ?_, (Cursor.past_skip_one ahead').rest_eq ahead'⟩
    rw [scanQuoted?, Cursor.seesDocumentLine_eq_false right, notAtEnd, found]
    simp [quote]
  | @spaces w ds cs body n word text flush ih =>
    obtain ⟨fuel, rfl⟩ : ∃ more, fuel = more + 1 := ⟨fuel - 1, by omega⟩
    have ahead : c.rest = ds ++ (spaces (n + 1) ++ (body ++ quoteOf single :: '\n' :: more)) := by simpa using ahead
    obtain ⟨c', past, scanned⟩ := scanQuoted?_word fuel acc word rfl ahead right room
    rw [ahead] at room
    simp only [List.length_append, length_spaces] at room enough
    obtain ⟨c'', found, past'⟩ := scanGap?_spaces 0 (size + 1) Gap.none (n := n + 1)
      (past.rest_eq ahead) flush.quote (by omega)
    have ahead'' := past'.rest_eq (past.rest_eq ahead)
    have right' : 0 < c''.column := by
      rw [past'.column, length_spaces]
      omega
    obtain ⟨last, found', after⟩ := @ih c'' (acc ++ w ++ spaces (n + 1)) fuel ahead'' right' (by omega)
      (by rw [ahead'', List.length_append]; omega)
    refine ⟨last, ?_, after⟩
    rw [scanned, found]
    simpa [Gap.none, Gap.text] using found'
  | @breaks w ds cs body bs e word allBreaks notFeed text flush ih =>
    obtain ⟨fuel, rfl⟩ : ∃ more, fuel = more + 1 := ⟨fuel - 1, by omega⟩
    have ahead : c.rest = ds ++ (e :: (bs ++ (spaces 2 ++ (body ++ quoteOf single :: '\n' :: more)))) := by
      simpa using ahead
    have gap : (e :: (bs ++ (spaces 2 ++ (body ++ quoteOf single :: '\n' :: more)))).head?.any isGap = true := by
      simp [isGap, (allBreaks e List.mem_cons_self).lineEnd]
    obtain ⟨c', past, scanned⟩ := scanQuoted?_word fuel acc word gap ahead right room
    rw [ahead] at room
    simp only [List.length_append, List.length_cons, length_spaces] at room enough
    obtain ⟨c'', found, ahead'', column⟩ := scanGap?_breaks 0 (size + 1) Gap.none (n := 2)
      (past.rest_eq ahead) allBreaks flush.quote (by rw [List.length_cons]; omega)
    obtain ⟨last, found', after⟩ := @ih c'' (acc ++ w ++ e :: bs) fuel ahead'' (by omega) (by omega)
      (by rw [ahead'', List.length_append]; simp only [List.length_cons]; omega)
    refine ⟨last, ?_, after⟩
    rw [scanned, found]
    have joins : Gap.text ⟨[], e :: bs, true⟩ = e :: bs := by
      unfold Gap.text
      simp only [Bool.not_true, Bool.false_eq_true, if_false]
      split
      · rename_i same
        exact absurd (List.cons.inj same).1 notFeed
      · rename_i same
        exact absurd (List.cons.inj same).1 notFeed
      · rfl
    simp only [Gap.none, List.nil_append, Option.bind_some]
    rw [joins, found']
    simp

theorem spells_self (notGap : isGap d = false) (notQuote : d ≠ quoteOf single) (notEscape : single = false → d ≠ '\\') :
    Spells single d [d] := by
  refine ⟨List.cons_ne_nil _ _, fun c t fuel acc ahead => ⟨c.skip 1, Cursor.past_skip_one ahead, ?_⟩⟩
  have ahead : c.rest = d :: t := ahead
  rw [scanQuotedWord?, ahead]
  cases single with
  | true =>
    have notQuote : d ≠ '\'' := notQuote
    simp [notGap, notQuote]
  | false =>
    have notQuote : d ≠ '"' := notQuote
    simp [notGap, notQuote, notEscape rfl]

theorem spells_quote : Spells true '\'' ['\'', '\''] := by
  refine ⟨List.cons_ne_nil _ _, fun c t fuel acc ahead => ⟨c.skip 2, Cursor.past_skip ahead, ?_⟩⟩
  have ahead : c.rest = '\'' :: '\'' :: t := ahead
  rw [scanQuotedWord?, ahead]
  simp [show isGap '\'' = false from rfl]

/-- An escape that the reader knows is read as its character. -/
theorem spells_escape (some_ : ds ≠ []) (starts : ds.head?.any isLineEnd = false)
    (escape : ∀ c t, c.rest = ds ++ t → ∃ c', c.Past ds c' ∧ scanEscape? c = some (d, c')) :
    Spells false d ('\\' :: ds) := by
  refine ⟨List.cons_ne_nil _ _, fun c t fuel acc ahead => ?_⟩
  have ahead : c.rest = '\\' :: (ds ++ t) := ahead
  have first := Cursor.past_skip_one ahead
  obtain ⟨c', past, read⟩ := escape (c.skip 1) t (first.rest_eq ahead)
  refine ⟨c', first.trans past, ?_⟩
  have sameLine : (ds ++ t).head?.any isLineEnd = false := by
    cases ds with
    | nil => exact absurd rfl some_
    | cons => exact starts
  rw [scanQuotedWord?, ahead]
  simp only [show isGap '\\' = false from rfl, sameLine, read, Bool.false_and, Bool.not_false, Bool.true_and,
    Bool.false_eq_true, if_false, decide_true, if_true]
  simp

theorem spells_letter (letter : escapeLetter? d = some e) : Spells false d ['\\', e] := by
  have facts : escapeOf? e = some d ∧ escapeDigits? e = none ∧ isLineEnd e = false := by
    unfold escapeLetter? at letter
    split at letter
    case h_16 => cases letter
    all_goals
      obtain rfl := Option.some.inj letter
      exact ⟨rfl, rfl, rfl⟩
  obtain ⟨known, noDigits, sameLine⟩ := facts
  refine spells_escape (List.cons_ne_nil _ _) sameLine fun c t ahead => ⟨c.skip 1, Cursor.past_skip_one ahead, ?_⟩
  simp [scanEscape?, Cursor.peek, ahead, noDigits, known]

theorem spells_digits {mark : Char} (announces : escapeDigits? mark = some ds.length)
    (sameLine : isLineEnd mark = false) (value : Text.natOfDigits? 16 ds = some d.toNat) :
    Spells false d ('\\' :: mark :: ds) := by
  refine spells_escape (List.cons_ne_nil _ _) sameLine fun c t ahead => ?_
  refine ⟨c.skip (mark :: ds).length, Cursor.past_skip ahead, ?_⟩
  have ahead : c.rest = mark :: (ds ++ t) := ahead
  have after : (c.skip 1).rest = ds ++ t := (Cursor.past_skip_one ahead).rest_eq ahead
  have valid : d.toNat.isValidChar := d.valid
  simp [scanEscape?, Cursor.peek, ahead, announces, after, value, valid]

theorem spells_codeEscape (d : Char) : Spells false d ('\\' :: codeEscape d.toNat) := by
  have digits : ∀ mark width, 0 < width → escapeDigits? mark = some width → isLineEnd mark = false →
      d.toNat < Nat.pow 16 width →
      Spells false d ('\\' :: mark :: (Text.hexPadded width d.toNat).map Char.toUpper) := by
    intro mark width positive announces sameLine small
    refine spells_digits ?_ sameLine (Text.natOfDigits?_upperHex width d.toNat)
    rw [List.length_map, Text.length_hexPadded positive small, announces]
  unfold codeEscape
  dsimp only
  have small : d.toNat < 0x110000 := by
    rcases d.valid with low | high
    · exact Nat.lt_trans low (by decide)
    · exact high.2
  split
  · exact digits 'x' 2 (by decide) rfl rfl (by simp [Nat.pow]; omega)
  split
  · exact digits 'u' 4 (by decide) rfl rfl (by simp [Nat.pow]; omega)
  · exact digits 'U' 8 (by decide) rfl rfl (by simp [Nat.pow]; omega)

theorem spells_doubleQuotedChar (notSpace : d ≠ ' ') : Spells false d (doubleQuotedChar d) := by
  unfold doubleQuotedChar
  split
  · rename_i plain
    simp only [Bool.and_eq_true, decide_eq_true_eq, Bool.not_eq_true'] at plain
    obtain ⟨⟨⟨printable, sameLine⟩, notQuote⟩, notEscape⟩ := plain
    have notGap : isGap d = false := by
      rw [Bool.eq_false_iff, ne_eq, isGap_iff printable]
      simp [notSpace, sameLine]
    exact spells_self notGap notQuote fun _ => notEscape
  split
  · exact spells_letter ‹_›
  · exact spells_codeEscape d

theorem isQuotedWord_flatMap {spell : Char → List Char} (spells : ∀ d ∈ w, Spells single d (spell d)) :
    IsQuotedWord single w (w.flatMap spell) := by
  induction w with
  | nil => exact .nil
  | cons d w ih =>
    obtain ⟨here, later⟩ := List.forall_mem_cons.mp spells
    exact .cons here (ih later)

theorem isFlush_flatMap {spell : Char → List Char}
    (starts : ∀ d, cs.head? = some d → IsFlush (spell d) ∧ spell d ≠ []) : IsFlush (cs.flatMap spell) := by
  cases cs with
  | nil => exact isFlush_nil
  | cons d cs =>
    obtain ⟨flush, some_⟩ := starts d rfl
    exact flush.append some_ _

theorem isFlush_doubleQuotedChar (notSpace : d ≠ ' ') : IsFlush (doubleQuotedChar d) := by
  unfold doubleQuotedChar
  split
  · rename_i plain
    simp only [Bool.and_eq_true, Bool.not_eq_true'] at plain
    rw [isFlush_cons, Bool.eq_false_iff, ne_eq, isGap_iff plain.1.1.1]
    simp [notSpace, plain.1.1.2]
  split <;> exact isFlush_cons.mpr rfl

theorem flatMap_spaces {spell : Char → List Char} (same : spell ' ' = [' ']) (n : Nat) :
    (spaces n).flatMap spell = spaces n := by
  induction n with
  | zero => rfl
  | succ n ih =>
    have step : spaces (n + 1) = ' ' :: spaces n := rfl
    rw [step, List.flatMap_cons, same, ih]
    rfl

theorem quotedBody_double (cs : List Char) : QuotedBody false cs (cs.flatMap doubleQuotedChar) := by
  induction size : cs.length using Nat.strongRecOn generalizing cs with
  | ind size ih =>
    obtain ⟨w, n, r, rfl, inWord, noSpace, none_⟩ := exists_word cs
    have word : IsQuotedWord false w (w.flatMap doubleQuotedChar) :=
      isQuotedWord_flatMap fun d member => spells_doubleQuotedChar (inWord d member)
    cases n with
    | zero =>
      obtain rfl := none_ rfl
      simpa [spaces] using QuotedBody.last word
    | succ n =>
      rw [List.flatMap_append, List.flatMap_append, flatMap_spaces rfl]
      refine .spaces word (ih r.length ?_ r rfl) (isFlush_flatMap fun d first => ?_)
      · rw [← size]
        simp
        omega
      · have notSpace : d ≠ ' ' := by
          rintro rfl
          exact noSpace first
        exact ⟨isFlush_doubleQuotedChar notSpace, (spells_doubleQuotedChar notSpace).some_⟩

theorem isAllowed_doubleQuotedChar (member : e ∈ doubleQuotedChar d) : isAllowed e = true := by
  unfold doubleQuotedChar at member
  split at member
  · rename_i plain
    simp only [Bool.and_eq_true] at plain
    obtain rfl := List.mem_singleton.mp member
    exact isAllowed_of_isPrintable plain.1.1.1
  split at member
  · rename_i letter found
    rcases List.mem_cons.mp member with rfl | last
    · rfl
    · obtain rfl := List.mem_singleton.mp last
      unfold escapeLetter? at found
      split at found
      case h_16 => cases found
      all_goals
        obtain rfl := Option.some.inj found
        rfl
  · have digits : ∀ width, e ∈ (Text.hexPadded width d.toNat).map Char.toUpper → isAllowed e = true := by
      intro width digit
      obtain ⟨k, small, rfl⟩ := Text.digit_of_mem_upperHex digit
      have all : ∀ k < 16, isAllowed (Nat.digitChar k).toUpper = true := by decide
      exact all k small
    have marks : ∀ mark ∈ ['x', 'u', 'U'], isAllowed mark = true := List.all_eq_true.mp (by decide)
    rcases List.mem_cons.mp member with rfl | member
    · rfl
    unfold codeEscape at member
    dsimp only at member
    have mark_or_digit : ∃ mark ∈ ['x', 'u', 'U'], ∃ width,
        e = mark ∨ e ∈ (Text.hexPadded width d.toNat).map Char.toUpper := by
      split at member
      · exact ⟨'x', by simp, 2, List.mem_cons.mp member⟩
      split at member
      · exact ⟨'u', by simp, 4, List.mem_cons.mp member⟩
      · exact ⟨'U', by simp, 8, List.mem_cons.mp member⟩
    obtain ⟨mark, known, width, rfl | digit⟩ := mark_or_digit
    · exact marks e known
    · exact digits width digit

/-! ## Texts in single quotes -/

theorem hasPair_of_append {p q : Char → Bool} (none_ : hasPair p q (w ++ cs) = false) : hasPair p q cs = false := by
  induction w with
  | nil => exact none_
  | cons d w ih =>
    refine ih ?_
    cases shape : w ++ cs with
    | nil => rfl
    | cons e v =>
      rw [List.cons_append, shape, hasPair, Bool.or_eq_false_iff] at none_
      exact none_.2

/-- What a gap of one kind of characters is followed by. -/
theorem head_of_noPair {p q : Char → Bool} (none_ : hasPair p q (w ++ cs) = false) (some_ : w ≠ [])
    (all : ∀ d ∈ w, p d = true) : cs.head?.any q = false := by
  obtain ⟨v, d, rfl⟩ := (List.eq_nil_or_concat w).resolve_left some_
  cases cs with
  | nil => rfl
  | cons e cs =>
    have last := hasPair_of_append (w := v) (by simpa using none_)
    rw [hasPair, Bool.or_eq_false_iff, all d (by simp)] at last
    simpa using last.1

/-- How a character of a word stands in single quotes. -/
def singleQuotedChar (d : Char) : List Char := if d = '\'' then ['\'', '\''] else [d]

theorem spells_singleQuotedChar (notGap : isGap d = false) : Spells true d (singleQuotedChar d) := by
  unfold singleQuotedChar
  split
  · rename_i quote
    exact quote ▸ spells_quote
  · exact spells_self notGap ‹_› nofun

theorem singleQuotedBody_word (noGap : ∀ d ∈ w, isGap d = false) (cs : List Char) :
    singleQuotedBody n false (w ++ cs) = w.flatMap singleQuotedChar ++ singleQuotedBody n false cs := by
  induction w with
  | nil => rfl
  | cons d w ih =>
    obtain ⟨here, later⟩ := List.forall_mem_cons.mp noGap
    obtain ⟨notBlank, sameLine⟩ := Bool.or_eq_false_iff.mp here
    have notSpace : d ≠ ' ' := by
      rintro rfl
      cases notBlank
    rw [List.cons_append, singleQuotedBody, sameLine, ih later, List.flatMap_cons, singleQuotedChar]
    by_cases quote : d = '\'' <;> simp [quote, notSpace]

theorem singleQuotedBody_spaces (k : Nat) (cs : List Char) :
    singleQuotedBody n false (spaces k ++ cs) = spaces k ++ singleQuotedBody n false cs := by
  induction k with
  | zero => rfl
  | succ k ih =>
    have step : spaces (k + 1) = ' ' :: spaces k := rfl
    rw [step, List.cons_append, singleQuotedBody, ih]
    rfl

theorem singleQuotedBody_breaks {bs : List Char} {b : Bool} (breaks : ∀ d ∈ bs, isLineEnd d = true ∧ d ≠ '\n')
    (some_ : bs ≠ []) (cs : List Char) : singleQuotedBody n b (bs ++ cs) = bs ++ singleQuotedBody n true cs := by
  induction bs generalizing b with
  | nil => exact absurd rfl some_
  | cons d bs ih =>
    obtain ⟨⟨here, notFeed⟩, later⟩ := List.forall_mem_cons.mp breaks
    rw [List.cons_append, singleQuotedBody, here]
    cases bs with
    | nil => simp [notFeed]
    | cons => rw [ih later (List.cons_ne_nil _ _)]; simp [notFeed]

theorem singleQuotedBody_indented (flush : IsFlush cs) :
    singleQuotedBody n true cs = spaces n ++ singleQuotedBody n false cs := by
  cases cs with
  | nil => simp [singleQuotedBody]
  | cons d cs =>
    obtain ⟨notBlank, sameLine⟩ := Bool.or_eq_false_iff.mp (isFlush_cons.mp flush)
    have notSpace : d ≠ ' ' := by
      rintro rfl
      cases notBlank
    simp [singleQuotedBody, sameLine, notSpace]

theorem isFlush_singleQuotedBody (flush : IsFlush cs) : IsFlush (singleQuotedBody n false cs) := by
  cases cs with
  | nil => exact isFlush_nil
  | cons d cs =>
    have notGap := isFlush_cons.mp flush
    have word := singleQuotedBody_word (n := n) (w := [d]) (by simpa using notGap) cs
    have here : IsFlush (singleQuotedChar d) := by
      unfold singleQuotedChar
      split <;> exact isFlush_cons.mpr (by first | rfl | exact notGap)
    rw [List.flatMap_singleton] at word
    exact word ▸ here.append (spells_singleQuotedChar notGap).some_ _

/-- A text that is written in single quotes: of the line ends only those that are no line feeds, and beside spaces
none. -/
structure IsSingleQuotable (cs : List Char) : Prop where
  printable : ∀ d ∈ cs, isPrintable d = true
  noFeed : '\n' ∉ cs
  noTrailing : hasPair isSpace isLineEnd cs = false
  noLeading : hasPair isLineEnd isSpace cs = false

theorem IsSingleQuotable.of_append (quotable : IsSingleQuotable (w ++ cs)) : IsSingleQuotable cs where
  printable d member := quotable.printable d (List.mem_append_right _ member)
  noFeed member := quotable.noFeed (List.mem_append_right _ member)
  noTrailing := hasPair_of_append quotable.noTrailing
  noLeading := hasPair_of_append quotable.noLeading

theorem IsSingleQuotable.isFlush (quotable : IsSingleQuotable cs) (noSpace : cs.head?.any isSpace = false)
    (sameLine : cs.head?.any isLineEnd = false) : IsFlush cs := by
  cases cs with
  | nil => exact isFlush_nil
  | cons d cs =>
    have notSpace : d ≠ ' ' := by
      rintro rfl
      cases noSpace
    have notEnd : isLineEnd d = false := sameLine
    rw [isFlush_cons, Bool.eq_false_iff, ne_eq, isGap_iff (quotable.printable d List.mem_cons_self)]
    simp [notSpace, notEnd]

theorem quotedBody_single (quotable : IsSingleQuotable cs) : QuotedBody true cs (singleQuotedBody 2 false cs) := by
  induction size : cs.length using Nat.strongRecOn generalizing cs with
  | ind size ih =>
    obtain ⟨w, r, rfl, inWord, stops⟩ := exists_run (!isGap ·) cs
    have noGap : ∀ d ∈ w, isGap d = false := fun d member => by simpa using inWord d member
    have word : IsQuotedWord true w (w.flatMap singleQuotedChar) :=
      isQuotedWord_flatMap fun d member => spells_singleQuotedChar (noGap d member)
    rw [singleQuotedBody_word noGap]
    have quotable' := quotable.of_append
    cases r with
    | nil => simpa [singleQuotedBody] using QuotedBody.last word
    | cons d r =>
      have gap : isGap d = true := by simpa using stops
      have printable := quotable'.printable d List.mem_cons_self
      rcases (isGap_iff printable).mp gap with rfl | lineEnd
      · -- no line ends after spaces, and so they are read as they stand
        obtain ⟨n, v, shape, noSpace⟩ := exists_spaces r
        have shape : ' ' :: r = spaces (n + 1) ++ v := by rw [shape]; rfl
        rw [shape] at quotable' size ⊢
        have sameLine : v.head?.any isLineEnd = false :=
          head_of_noPair quotable'.noTrailing (List.cons_ne_nil _ _) fun d member => by
            rw [List.eq_of_mem_replicate member]
            rfl
        have noSpace : v.head?.any isSpace = false := by
          cases v with
          | nil => rfl
          | cons d v => simpa [isSpace] using noSpace
        have flush : IsFlush v := quotable'.of_append.isFlush noSpace sameLine
        rw [singleQuotedBody_spaces]
        refine .spaces word (ih v.length ?_ quotable'.of_append rfl) (isFlush_singleQuotedBody flush)
        rw [← size]
        simp
        omega
      · -- no spaces follow, and so the indentation is all that is dropped
        obtain ⟨bs, v, shape, ends, sameLine⟩ := exists_run isLineEnd r
        have shape : d :: r = d :: bs ++ v := by rw [shape]; rfl
        have allEnds : ∀ e ∈ d :: bs, isLineEnd e = true := List.forall_mem_cons.mpr ⟨lineEnd, ends⟩
        rw [shape] at quotable' size ⊢
        have noSpace : v.head?.any isSpace = false :=
          head_of_noPair quotable'.noLeading (List.cons_ne_nil _ _) allEnds
        have flush : IsFlush v := quotable'.of_append.isFlush noSpace sameLine
        have notFeed : ∀ e ∈ d :: bs, e ≠ '\n' := by
          rintro _ member rfl
          exact quotable'.noFeed (List.mem_append_left _ member)
        have breaks : ∀ e ∈ d :: bs, IsBreak e := fun e member =>
          ⟨allEnds e member, quotable'.printable e (List.mem_append_left _ member)⟩
        rw [singleQuotedBody_breaks (fun e member => ⟨allEnds e member, notFeed e member⟩) (List.cons_ne_nil _ _),
          singleQuotedBody_indented flush]
        refine .breaks word breaks (notFeed d List.mem_cons_self) (ih v.length ?_ quotable'.of_append rfl)
          (isFlush_singleQuotedBody flush)
        rw [← size]
        simp
        omega

theorem mem_singleQuotedBody {b : Bool} (member : e ∈ singleQuotedBody n b cs) :
    e = ' ' ∨ e = '\'' ∨ e = '\n' ∨ e ∈ cs := by
  induction cs generalizing b with
  | nil =>
    cases b with
    | true =>
      have spaces_ : e ∈ spaces n := by simpa [singleQuotedBody] using member
      exact .inl (List.eq_of_mem_replicate spaces_)
    | false => cases member
  | cons d cs ih =>
    have later : ∀ b, e ∈ singleQuotedBody n b cs → e = ' ' ∨ e = '\'' ∨ e = '\n' ∨ e ∈ d :: cs := fun b member =>
      (ih member).imp_right fun kinds => kinds.imp_right fun kinds => kinds.imp_right (List.mem_cons_of_mem d)
    rw [singleQuotedBody] at member
    split at member
    · rcases List.mem_append.mp member with front | member
      · split at front
        · exact .inr (.inr (.inl (List.mem_singleton.mp front)))
        · cases front
      · rcases List.mem_cons.mp member with rfl | member
        · exact .inr (.inr (.inr List.mem_cons_self))
        · exact later true member
    split at member
    · rcases List.mem_cons.mp member with rfl | member
      · exact .inr (.inr (.inr List.mem_cons_self))
      · exact later b member
    · rcases List.mem_append.mp member with front | member
      · rcases List.mem_append.mp front with front | front
        · split at front
          · exact .inl (List.eq_of_mem_replicate front)
          · cases front
        · split at front
          · exact .inr (.inl (List.mem_singleton.mp front))
          · cases front
      · rcases List.mem_cons.mp member with rfl | member
        · exact .inr (.inr (.inr List.mem_cons_self))
        · exact later false member

end Keyring.Yaml

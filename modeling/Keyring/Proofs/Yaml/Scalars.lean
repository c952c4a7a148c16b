import Keyring.Proofs.Yaml.Literal
import Keyring.Proofs.Yaml.Plain
import Keyring.Proofs.Yaml.Quoted

/-!
# Data that one scalar stands for

In each of the four styles a text stands as it can be read again (`ScalarLines`), and the style that is chosen for
a text is one that can hold it. Numbers, flags and nothing stand as plain words.
-/

namespace Keyring.Yaml

variable {c : Cursor} {t cs name lines : List Char} {style : Style} {d e : Char} {n : Nat}

/-- A letter, a digit or an underscore. -/
def isNameChar (d : Char) : Bool := d.isAlphanum || d = '_'

theorem ne_of_isNameChar (isName : isNameChar d = true) (other : isNameChar e = false) : d ≠ e := by
  rintro rfl
  rw [isName] at other
  cases other

theorem isGap_of_isNameChar (isName : isNameChar d = true) : isGap d = false := by
  have ne : ∀ e, isNameChar e = false → d ≠ e := fun e => ne_of_isNameChar isName
  simp [isGap, isSpaceOrTab, isLineEnd, ne ' ' rfl, ne '\t' rfl, ne '\n' rfl, ne '\r' rfl, ne '\u0085' rfl,
    ne '\u2028' rfl, ne '\u2029' rfl]

theorem isWord_of_isNameChar (chars : ∀ d ∈ name, isNameChar d = true) (t : List Char) : IsWord t name := by
  induction name with
  | nil => exact .nil
  | cons d name ih =>
    obtain ⟨here, later⟩ := List.forall_mem_cons.mp chars
    exact .cons (isGap_of_isNameChar here) (fun colon => absurd colon (ne_of_isNameChar here rfl)) (ih later)

theorem isPrintable_of_isNameChar (isName : isNameChar d = true) : isPrintable d = true := by
  have le_toNat : ∀ {low high : UInt32}, low ≤ high → low.toNat ≤ high.toNat := UInt32.le_iff_toNat_le.mp
  have within : ∀ {low high : UInt32}, (decide (low ≤ d.val) && decide (d.val ≤ high)) = true →
      low.toNat ≤ d.toNat ∧ d.toNat ≤ high.toNat := fun both =>
    (Bool.and_eq_true_iff.mp both).imp (fun low => le_toNat (of_decide_eq_true low))
      fun high => le_toNat (of_decide_eq_true high)
  have visible : 32 ≤ d.toNat ∧ d.toNat ≤ 126 := by
    rcases Bool.or_eq_true_iff.mp isName with alphanumeric | underscore
    · rcases Bool.or_eq_true_iff.mp alphanumeric with letter | digit
      · rcases Bool.or_eq_true_iff.mp letter with upper | lower
        · have range : 65 ≤ d.toNat ∧ d.toNat ≤ 90 := (of_decide_eq_true upper).imp le_toNat le_toNat
          omega
        · have range : 97 ≤ d.toNat ∧ d.toNat ≤ 122 := within lower
          omega
      · have range : 48 ≤ d.toNat ∧ d.toNat ≤ 57 := within digit
        omega
    · obtain rfl := of_decide_eq_true underscore
      decide
  simp [isPrintable, visible]

theorem isPlainRest_of_isNameChar (chars : ∀ d ∈ cs, isNameChar d = true) : IsPlainRest cs := by
  have noFirst : ∀ e, isNameChar e = false → cs.head? ≠ some e := by
    intro e other first
    rw [chars e (List.mem_of_head? first)] at other
    cases other
  refine ⟨fun d member => isPrintable_of_isNameChar (chars d member), fun d member => ?_, ?_, noFirst '#' rfl,
    noFirst ' ' rfl, fun last => ?_⟩
  · exact (Bool.or_eq_false_iff.mp (isGap_of_isNameChar (chars d member))).2
  · clear noFirst
    induction cs with
    | nil => rfl
    | cons d cs ih =>
      obtain ⟨here, later⟩ := List.forall_mem_cons.mp chars
      exact hasInnerMark_cons_eq_false.mpr ⟨fun colon => absurd colon (ne_of_isNameChar here rfl),
        fun _ => isGap_of_isNameChar here, ih later⟩
  · cases chars ' ' (List.mem_of_getLast? last)

theorem startsWithMark_of_isNameChar (chars : ∀ d ∈ cs, isNameChar d = true) : startsWithMark cs = false := by
  cases cs with
  | nil => rfl
  | cons d cs =>
    have ne : ∀ e, isNameChar e = false → d ≠ e := fun e => ne_of_isNameChar (chars d List.mem_cons_self)
    simp [startsWithMark, ne ',' rfl, ne '[' rfl, ne ']' rfl, ne '{' rfl, ne '}' rfl, ne '#' rfl, ne '&' rfl,
      ne '*' rfl, ne '!' rfl, ne '|' rfl, ne '>' rfl, ne '\'' rfl, ne '"' rfl, ne '%' rfl, ne '@' rfl, ne '\x60' rfl,
      ne '?' rfl, ne ':' rfl, ne '-' rfl]

/-- How a text stands as a scalar in a style, with the end of its last line. -/
inductive ScalarLines : Style → List Char → List Char → Prop where
  | plain {cs : List Char} : cs ≠ [] → IsPlainRest cs → startsWithMark cs = false →
      ScalarLines .plain cs (cs ++ ['\n'])
  | literal {cs : List Char} : cs ≠ [] → (∀ d ∈ cs, isPrintable d = true) →
      ScalarLines .literal cs ('|' :: (literalHeader cs ++ '\n' :: (literalBody 2 true cs ++ finalBreak cs)))
  | single {cs : List Char} : IsSingleQuotable cs →
      ScalarLines .singleQuoted cs ('\'' :: (singleQuotedBody 2 false cs ++ ['\'', '\n']))
  | double (cs : List Char) : ScalarLines .doubleQuoted cs ('"' :: (cs.flatMap doubleQuotedChar ++ ['"', '\n']))

theorem ScalarLines.starts (stands : ScalarLines style cs lines) (t : List Char) :
    lines ++ t ≠ [] ∧ IsFlush (lines ++ t) ∧ (lines ++ t).head? ≠ some '#' := by
  cases stands with
  | plain some_ text =>
    have flush := (plainText_of_isPlainRest some_ text []).isFlush (t := '\n' :: t)
    obtain ⟨d, cs, rfl⟩ := List.exists_cons_of_ne_nil some_
    exact ⟨nofun, by simpa using flush, text.noSharp⟩
  | literal => exact ⟨nofun, rfl, nofun⟩
  | single => exact ⟨nofun, rfl, nofun⟩
  | double => exact ⟨nofun, rfl, nofun⟩

theorem ScalarLines.allowed (stands : ScalarLines style cs lines) : ∀ e ∈ lines, isAllowed e = true := by
  have printed : ∀ {d}, isPrintable d = true → isAllowed d = true := isAllowed_of_isPrintable
  intro e member
  cases stands with
  | plain some_ text =>
    rcases List.mem_append.mp member with inText | feed
    · exact printed (text.printable e inText)
    · rw [List.mem_singleton.mp feed]
      rfl
  | literal some_ printable =>
    obtain ⟨chomp, -, header⟩ := exists_literalHeader cs
    have marks : ∀ hidden : Bool, ∀ e ∈ (if hidden then ['2'] else []) ++ markOf chomp, isAllowed e = true :=
      fun hidden => List.all_eq_true.mp (by cases hidden <;> cases chomp <;> decide)
    have final : ∀ e ∈ finalBreak cs, isAllowed e = true := by
      intro e member
      unfold finalBreak at member
      split at member
      · cases member
      · rw [List.mem_singleton.mp member]
        rfl
    have body : ∀ e ∈ literalBody 2 true cs, isAllowed e = true := by
      intro e member
      rcases mem_literalBody member with rfl | inText
      · rfl
      · exact printed (printable e inText)
    rw [header] at member
    rcases List.mem_cons.mp member with rfl | member
    · rfl
    rcases List.mem_append.mp member with mark | member
    · exact marks _ e mark
    rcases List.mem_cons.mp member with rfl | member
    · rfl
    exact (List.mem_append.mp member).elim (body e) (final e)
  | single quotable =>
    rcases List.mem_cons.mp member with rfl | member
    · rfl
    rcases List.mem_append.mp member with inBody | ends
    · rcases mem_singleQuotedBody inBody with rfl | rfl | rfl | inText
      · rfl
      · rfl
      · rfl
      · exact printed (quotable.printable e inText)
    · exact List.all_eq_true.mp (by decide) e ends
  | double =>
    rcases List.mem_cons.mp member with rfl | member
    · rfl
    rcases List.mem_append.mp member with inBody | ends
    · obtain ⟨d, -, spelled⟩ := List.mem_flatMap.mp inBody
      exact isAllowed_doubleQuotedChar spelled
    · exact List.all_eq_true.mp (by decide) e ends

theorem scalarLines_textLines (s : String) : ScalarLines (styleOf s) s.toList (textLines 2 s) := by
  have double : styleOf s = .doubleQuoted → ScalarLines (styleOf s) s.toList (textLines 2 s) := by
    intro style
    rw [textLines, style]
    simpa using ScalarLines.double s.toList
  by_cases feed : s.toList.contains '\n' = true
  · have some_ : s.toList ≠ [] := by
      intro none_
      rw [none_] at feed
      cases feed
    by_cases bar : allowsLiteral s.toList = true
    · have style : styleOf s = .literal := by simp only [styleOf, feed, bar, if_true]
      have printable : ∀ d ∈ s.toList, isPrintable d = true := by
        simp only [allowsLiteral, needsEscapes, Bool.not_eq_true', Bool.or_eq_false_iff] at bar
        intro d member
        simpa using List.any_eq_false.mp bar.1.2.1 d member
      rw [textLines, style]
      simpa [finalBreak] using ScalarLines.literal some_ printable
    · exact double (by simp only [styleOf, feed, bar, if_true, Bool.false_eq_true, if_false])
  have noFeed : '\n' ∉ s.toList := by simpa using feed
  by_cases plain : (!readsAsOther s && allowsPlain s.toList) = true
  · have style : styleOf s = .plain := by
      simp only [styleOf, feed, plain, if_true, Bool.false_eq_true, if_false]
    obtain ⟨own, allowed⟩ := Bool.and_eq_true_iff.mp plain
    have some_ : s.toList ≠ [] := by
      intro none_
      have empty : s.isEmpty = true := by simpa using none_
      simp [readsAsOther, empty] at own
    have noMark : startsWithMark s.toList = false := by
      simp only [allowsPlain, Bool.not_eq_true', Bool.or_eq_false_iff] at allowed
      exact allowed.1.1.1.1.2
    rw [textLines, style]
    exact .plain some_ (isPlainRest_of_allowsPlain allowed) noMark
  by_cases single : allowsSingleQuoted s.toList = true
  · have style : styleOf s = .singleQuoted := by
      simp only [styleOf, feed, plain, single, if_true, Bool.false_eq_true, if_false]
    have quotable : IsSingleQuotable s.toList := by
      simp only [allowsSingleQuoted, needsEscapes, Bool.not_eq_true', Bool.or_eq_false_iff] at single
      refine ⟨fun d member => ?_, noFeed, single.1.2, single.2⟩
      simpa using List.any_eq_false.mp single.1.1 d member
    rw [textLines, style]
    simpa using ScalarLines.single quotable
  · exact double (by simp only [styleOf, feed, plain, single, Bool.false_eq_true, if_false])

/-- Data that one scalar stands for. -/
inductive IsScalar : Data → Prop where
  | text (s : String) : IsScalar (.text s)
  | number (n : Nat) : IsScalar (.number n)
  | flag (b : Bool) : IsScalar (.flag b)
  | null : IsScalar .null

/-- The style and the text of the scalar that data is written as. -/
def scalarOf : Data → Style × String
  | .text s => (styleOf s, s)
  | d => (.plain, String.ofList (plainWord d))

theorem plainWord_number (n : Nat) : plainWord (.number n) = Text.decimal n := by
  rw [plainWord, Text.integer, if_neg (by omega), Int.natAbs_natCast]

theorem plainWord_spec {d : Data} (scalar : IsScalar d) (noText : ∀ s, d ≠ .text s) :
    plainWord d ≠ [] ∧ ∀ e ∈ plainWord d, isNameChar e = true := by
  cases scalar with
  | text s => exact absurd rfl (noText s)
  | number n =>
    rw [plainWord_number]
    refine ⟨Nat.toDigits_ne_nil, fun e member => ?_⟩
    have digit : e.isDigit = true := Nat.isDigit_of_mem_toDigits (by decide) (by decide) member
    simp [isNameChar, Char.isAlphanum, digit]
  | flag b => cases b <;> exact ⟨nofun, List.all_eq_true.mp (by decide)⟩
  | null => exact ⟨nofun, List.all_eq_true.mp (by decide)⟩

theorem exists_scalarLines {d : Data} (scalar : IsScalar d) :
    ∃ lines, valueLines false 0 d = ' ' :: lines ∧ ScalarLines (scalarOf d).1 (scalarOf d).2.toList lines := by
  by_cases text : ∃ s, d = .text s
  · obtain ⟨s, rfl⟩ := text
    exact ⟨textLines 2 s, by rw [valueLines], scalarLines_textLines s⟩
  · have noText : ∀ s, d ≠ .text s := fun s same => text ⟨s, same⟩
    obtain ⟨some_, chars⟩ := plainWord_spec scalar noText
    have of : scalarOf d = (.plain, String.ofList (plainWord d)) := by
      cases scalar with
      | text s => exact absurd rfl (noText s)
      | _ => rfl
    rw [of, String.toList_ofList]
    refine ⟨plainWord d ++ ['\n'], ?_,
      .plain some_ (isPlainRest_of_isNameChar chars) (startsWithMark_of_isNameChar chars)⟩
    cases scalar with
    | text s => exact absurd rfl (noText s)
    | _ => rfl

end Keyring.Yaml

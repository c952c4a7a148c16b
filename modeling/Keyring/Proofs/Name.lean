import Keyring.Proofs.Lifecycle.Directory
import Keyring.Proofs.Text.Ascii
import Mathlib.Computability.Language

/-!
# The language of names

A name is a word of a regular language with 64 bytes at most
(`isName_iff_mem_pattern`): a small letter or digit, then any characters of names, and a
small letter or digit again, or one of those alone. Told by its bytes it has one to 64 of
them, all of names, with those of small letters or digits at both ends
(`isName_iff_isSafe`).
-/

namespace Keyring.Name

open Text
open scoped Computability

variable {c : Char} {cs set : List Char} {name : String}

/-- The small letters and the digits. -/
def alphanumerics : String := "abcdefghijklmnopqrstuvwxyz0123456789"

def nameChars : String := alphanumerics ++ "-_."

/-- What holds of the first 128 characters one by one holds of all those below 128. -/
theorem of_ascii {P : Char → Prop} (each : ∀ n < 128, P (Char.ofNat n)) (ascii : c.toNat < 128) : P c := by
  rw [← Char.ofNat_toNat c]
  exact each _ ascii

/-- What is checked of each character of a list holds of each. -/
theorem of_all {P : Char → Prop} [DecidablePred P] (all : (cs.all fun c => decide (P c)) = true) : ∀ c ∈ cs, P c := by
  simpa using all

theorem ascii_of_mem_alphanumerics : ∀ c ∈ alphanumerics.toList, c.toNat < 128 := of_all (by decide)

theorem isAlphanumeric_iff : isAlphanumeric c = true ↔ c ∈ alphanumerics.toList := by
  by_cases ascii : c.toNat < 128
  · exact of_ascii (P := fun c => isAlphanumeric c = true ↔ c ∈ alphanumerics.toList)
      (by decide +kernel) ascii
  · constructor
    · intro alphanumeric
      have range : ('a' ≤ c ∧ c ≤ 'z') ∨ '0' ≤ c ∧ c ≤ '9' := by simpa [isAlphanumeric] using alphanumeric
      simp only [Char.le_def, UInt32.le_iff_toNat_le] at range
      have value : c.val.toNat = c.toNat := rfl
      have z : 'z'.val.toNat = 122 := rfl
      have nine : '9'.val.toNat = 57 := rfl
      omega
    · intro member
      exact absurd (ascii_of_mem_alphanumerics c member) ascii

theorem isNameChar_iff : isNameChar c = true ↔ c ∈ nameChars.toList := by
  rw [nameChars, String.toList_append, List.mem_append, ← isAlphanumeric_iff]
  simp [isNameChar, or_assoc]

theorem ascii_of_mem_nameChars : ∀ c ∈ nameChars.toList, c.toNat < 128 := of_all (by decide)

def oneOf (set : List Char) : Language Char := {word | ∃ c ∈ set, word = [c]}

theorem mem_oneOf_iff : cs ∈ oneOf set ↔ ∃ c ∈ set, cs = [c] := Iff.rfl

/-- The words of any number of characters of a set. -/
theorem mem_star_oneOf_iff : cs ∈ (oneOf set)∗ ↔ ∀ c ∈ cs, c ∈ set := by
  rw [Language.mem_kstar]
  constructor
  · rintro ⟨words, rfl, each⟩ c member
    obtain ⟨word, inside, found⟩ := List.mem_flatten.mp member
    obtain ⟨d, inSet, rfl⟩ := mem_oneOf_iff.mp (each word inside)
    rwa [List.mem_singleton.mp found]
  · intro all
    refine ⟨cs.map fun c => [c], ?_, ?_⟩
    · induction cs with
      | nil => rfl
      | cons c rest ih =>
        rw [List.map_cons, List.flatten_cons, ← ih fun d member => all d (List.mem_cons_of_mem c member)]
        rfl
    · intro word inside
      obtain ⟨c, member, rfl⟩ := List.mem_map.mp inside
      exact ⟨c, all c member, rfl⟩

/-- The words that are names but for their length. -/
def pattern : Language Char :=
  oneOf alphanumerics.toList * (oneOf nameChars.toList)∗ * oneOf alphanumerics.toList +
    oneOf alphanumerics.toList

theorem mem_pattern_iff : cs ∈ pattern ↔ (∀ c ∈ cs, c ∈ nameChars.toList) ∧
    (∃ c ∈ alphanumerics.toList, cs.head? = some c) ∧ ∃ c ∈ alphanumerics.toList, cs.getLast? = some c := by
  have included : ∀ c ∈ alphanumerics.toList, c ∈ nameChars.toList := of_all (by decide)
  rw [pattern, Language.mem_add]
  constructor
  · rintro (long | alone)
    · obtain ⟨front, ⟨first, firstIn, inner, innerIn, rfl⟩, last, lastIn, rfl⟩ := long
      obtain ⟨c, cIn, rfl⟩ := firstIn
      obtain ⟨d, dIn, rfl⟩ := lastIn
      refine ⟨?_, ⟨c, cIn, rfl⟩, d, dIn, List.getLast?_concat⟩
      intro e member
      simp only [List.cons_append, List.nil_append, List.mem_cons, List.mem_append, List.not_mem_nil,
        or_false] at member
      rcases member with rfl | inside | rfl
      · exact included e cIn
      · exact mem_star_oneOf_iff.mp innerIn e inside
      · exact included e dIn
    · obtain ⟨c, cIn, rfl⟩ := alone
      refine ⟨?_, ⟨c, cIn, rfl⟩, c, cIn, rfl⟩
      intro e member
      rw [List.mem_singleton.mp member]
      exact included c cIn
  · rintro ⟨all, ⟨c, cIn, starts⟩, d, dIn, ends⟩
    obtain ⟨rest, rfl⟩ := List.head?_eq_some_iff.mp starts
    by_cases alone : rest = []
    · subst alone
      exact .inr ⟨c, cIn, rfl⟩
    · left
      rw [List.getLast?_cons_of_ne_nil alone] at ends
      obtain ⟨inner, rfl⟩ := List.getLast?_eq_some_iff.mp ends
      refine ⟨[c] ++ inner, ⟨[c], ⟨c, cIn, rfl⟩, inner, ?_, rfl⟩, [d], ⟨d, dIn, rfl⟩, rfl⟩
      refine mem_star_oneOf_iff.mpr fun e inside => ?_
      exact all e (by simp [inside])

theorem any_iff_exists {o : Option Char} :
    o.any isAlphanumeric = true ↔ ∃ c ∈ alphanumerics.toList, o = some c := by
  cases o with
  | none => simp
  | some c => simp [isAlphanumeric_iff]

/-- A name is a word of the pattern that is not too long. -/
theorem isName_iff_mem_pattern :
    isName name = true ↔ utf8Length name ≤ maxLength ∧ name.toList ∈ pattern := by
  simp only [isName_iff, mem_pattern_iff, isNameChar_iff, any_iff_exists]

/-- One to 64 bytes, all of characters of names, and at both ends of small letters or digits. -/
structure IsSafe (name : String) : Prop where
  some_ : 1 ≤ (utf8Bytes name).length
  short : (utf8Bytes name).length ≤ 64
  plain : ∀ b ∈ utf8Bytes name, b ∈ utf8Bytes nameChars
  first : ∃ b ∈ utf8Bytes alphanumerics, (utf8Bytes name).head? = some b
  last : ∃ b ∈ utf8Bytes alphanumerics, (utf8Bytes name).getLast? = some b

/-- A character below 128 is one of a text of such characters just where its byte is one of its bytes. -/
theorem asciiByte_mem_iff {text : String} (ofAscii : ∀ d ∈ text.toList, d.toNat < 128) (ascii : c.toNat < 128) :
    asciiByte c ∈ utf8Bytes text ↔ c ∈ text.toList := by
  rw [utf8Bytes_of_ascii ofAscii, List.mem_map]
  constructor
  · rintro ⟨d, member, same⟩
    rwa [← asciiByte_inj (ofAscii d member) ascii same]
  · intro member
    exact ⟨c, member, rfl⟩

theorem exists_byte_iff {o : Option Char} (ascii : ∀ c, o = some c → c.toNat < 128) :
    (∃ b ∈ utf8Bytes alphanumerics, o.map asciiByte = some b) ↔ ∃ c ∈ alphanumerics.toList, o = some c := by
  cases o with
  | none => simp
  | some c => simp [asciiByte_mem_iff ascii_of_mem_alphanumerics (ascii c rfl)]

/-- Told by their characters or by their bytes, names are the same. -/
theorem isName_iff_isSafe : isName name = true ↔ IsSafe name := by
  have told (ascii : ∀ c ∈ name.toList, c.toNat < 128) : IsSafe name ↔ utf8Length name ≤ maxLength ∧
      (∀ c ∈ name.toList, c ∈ nameChars.toList) ∧ (∃ c ∈ alphanumerics.toList, name.toList.head? = some c) ∧
        ∃ c ∈ alphanumerics.toList, name.toList.getLast? = some c := by
    have bytes := utf8Bytes_of_ascii ascii
    have all : (∀ b ∈ utf8Bytes name, b ∈ utf8Bytes nameChars) ↔ ∀ c ∈ name.toList, c ∈ nameChars.toList := by
      rw [bytes, List.forall_mem_map]
      exact forall₂_congr fun c member => asciiByte_mem_iff ascii_of_mem_nameChars (ascii c member)
    have starts := exists_byte_iff fun c is => ascii c (List.mem_of_head? is)
    have ends := exists_byte_iff fun c is => ascii c (List.mem_of_getLast? is)
    rw [← List.head?_map, ← bytes] at starts
    rw [← List.getLast?_map, ← bytes] at ends
    rw [← all, ← starts, ← ends, utf8Length]
    constructor
    · intro safe
      exact ⟨safe.short, safe.plain, safe.first, safe.last⟩
    · rintro ⟨short, plain, first, last⟩
      refine ⟨?_, short, plain, first, last⟩
      obtain ⟨b, -, is⟩ := first
      exact List.length_pos_of_mem (List.mem_of_head? is)
  constructor
  · intro named
    rw [isName_iff_mem_pattern, mem_pattern_iff] at named
    exact (told fun c member => ascii_of_mem_nameChars c (named.2.1 c member)).mpr named
  · intro safe
    have small : ∀ b ∈ utf8Bytes nameChars, b.toNat < 128 := by decide +kernel
    have ascii := ascii_iff.mpr fun b member => small b (safe.plain b member)
    rw [isName_iff_mem_pattern, mem_pattern_iff]
    exact (told ascii).mp safe

theorem check_eq_ok_iff : check name = .ok () ↔ isName name = true := by
  unfold check
  by_cases named : isName name = true
  · simp [named]
  · simp [named]

theorem check_eq_error_iff {e : Error} : check name = .error e ↔ e = .invalidName name ∧ ¬isName name = true := by
  unfold check
  by_cases named : isName name = true
  · simp [named]
  · simp [named, eq_comm]

end Keyring.Name

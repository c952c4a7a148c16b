import Keyring.Proofs.Text.Ascii
import Keyring.Remote.Shell
import Keyring.Script.Shell

/-!
# A quoted text in a script

Scripts are read byte by byte, and the bytes of a quoted text are those of the text with the
quotes among them escaped (`bytesOfText_shellQuote`). So a script, too, reads a quoted text as
one word, and whatever it knows at the time, that word is one field with the bytes of the text
(`tokensOf_shellQuote`).
-/

namespace Keyring.Script

open Remote Text

variable {bs run rest : Bytes} {c : Char} {fuel : Nat}

theorem flatMap_quotedChar (plain : '\'' ∉ bs) : bs.flatMap quotedChar = bs := by
  induction bs with
  | nil => rfl
  | cons c bs ih =>
    rw [List.mem_cons, not_or] at plain
    rw [List.flatMap_cons, ih plain.2, quotedChar, if_neg (Ne.symm plain.1)]
    rfl

/-- Only a quote has the byte of a quote, so to escape the bytes is to escape the characters. -/
theorem bytes_quotedChar (c : Char) :
    ((quotedChar c).flatMap String.utf8EncodeChar).map (fun b => Char.ofNat b.toNat) =
      ((String.utf8EncodeChar c).map fun b => Char.ofNat b.toNat).flatMap quotedChar := by
  by_cases quote : c = '\''
  · subst quote
    decide
  · rw [quotedChar, if_neg quote, List.flatMap_singleton]
    refine (flatMap_quotedChar ?_).symm
    intro member
    obtain ⟨b, inside, is⟩ := List.mem_map.mp member
    have only : ∀ n < 256, Char.ofNat n = '\'' → n = 39 := by decide +kernel
    have value := only b.toNat b.toNat_lt is
    by_cases ascii : c.toNat < 128
    · rw [utf8EncodeChar_of_ascii ascii, List.mem_singleton] at inside
      subst inside
      rw [ofNat_asciiByte ascii] at is
      exact quote is
    · have high := le_of_mem_utf8EncodeChar (Nat.not_lt.mp ascii) inside
      omega

theorem bytesOfText_shellQuote (s : String) :
    bytesOfText (shellQuote s) = '\'' :: (bytesOfText s).flatMap quotedChar ++ ['\''] := by
  have inner : ∀ cs : List Char, ((cs.flatMap quotedChar).flatMap String.utf8EncodeChar).map (fun b => Char.ofNat b.toNat) =
      ((cs.flatMap String.utf8EncodeChar).map fun b => Char.ofNat b.toNat).flatMap quotedChar := by
    intro cs
    induction cs with
    | nil => rfl
    | cons c cs ih =>
      rw [List.flatMap_cons, List.flatMap_append, List.map_append, ih, bytes_quotedChar, List.flatMap_cons,
        List.map_append, List.flatMap_append]
  have quote : (String.utf8EncodeChar '\'').map (fun b => Char.ofNat b.toNat) = ['\''] := by decide
  rw [bytesOfText, utf8Bytes, shellQuote, String.toList_ofList, List.cons_append, List.flatMap_cons,
    List.flatMap_append, List.map_append, List.map_append, quote, inner, List.flatMap_singleton, quote]
  rfl

/-- Texts within quotes, as pieces of a word. -/
def quotedPieces (texts : List Bytes) : Word := texts.map (.plain true)

theorem scanWord_single (plain : '\'' ∉ run) : scanWord (fuel + 1) false ('\'' :: (run ++ '\'' :: rest)) =
    (scanWord fuel false rest).map fun (w, after) => (.plain true run :: w, after) := by
  have front : (run ++ '\'' :: rest).takeWhile (fun c => !decide (c = '\'')) = run := by
    rw [List.takeWhile_append_of_pos, List.takeWhile_cons_of_neg (by simp), List.append_nil]
    intro c member
    simpa using fun is : c = '\'' => plain (is ▸ member)
  have ends : endsWord '\'' = false := by decide
  conv_lhs => unfold scanWord
  simp [ends, front]

theorem scanWord_escape : scanWord (fuel + 1) false ('\\' :: '\'' :: rest) =
    (scanWord fuel false rest).map fun (w, after) => (.plain true ['\''] :: w, after) := by
  have ends : endsWord '\\' = false := by decide
  conv_lhs => unfold scanWord
  simp [ends, escaped]

/-- A quoted text is a few pieces of a word, together the text; what comes after goes on from there. -/
theorem scanWord_quoted (plain : '\'' ∉ run) : ∃ texts, texts ≠ [] ∧ texts.flatten = run ++ bs ∧ ∀ fuel rest,
    scanWord (fuel + 2 * bs.count '\'' + 1) false ('\'' :: (run ++ bs.flatMap quotedChar ++ '\'' :: rest)) =
      (scanWord fuel false rest).map fun (w, after) => (quotedPieces texts ++ w, after) := by
  induction bs generalizing run with
  | nil =>
    refine ⟨[run], by simp, by simp, ?_⟩
    intro fuel rest
    simp only [List.count_nil, List.flatMap_nil, List.append_nil]
    exact scanWord_single plain
  | cons c bs ih =>
    by_cases quote : c = '\''
    · subst quote
      -- the run so far, the quote for itself, and another run from here on
      obtain ⟨texts, -, flat, scanned⟩ := @ih [] (by simp)
      refine ⟨run :: ['\''] :: texts, by simp, by simp [flat], ?_⟩
      intro fuel rest
      have shape : '\'' :: (run ++ ('\'' :: bs).flatMap quotedChar ++ '\'' :: rest) =
          '\'' :: (run ++ '\'' :: '\\' :: '\'' :: '\'' :: (bs.flatMap quotedChar ++ '\'' :: rest)) := by
        simp [quotedChar]
      have steps : fuel + 2 * ('\'' :: bs).count '\'' + 1 = fuel + 2 * bs.count '\'' + 1 + 1 + 1 := by
        rw [List.count_cons_self]
        omega
      have later := scanned fuel rest
      rw [List.nil_append] at later
      rw [shape, steps, scanWord_single plain, scanWord_escape, later]
      simp [quotedPieces, Function.comp_def]
    · have longer : '\'' ∉ run ++ [c] := by simp [plain, Ne.symm quote]
      obtain ⟨texts, some_, flat, scanned⟩ := @ih (run ++ [c]) longer
      refine ⟨texts, some_, by simp [flat], ?_⟩
      intro fuel rest
      rw [List.count_cons_of_ne quote, List.flatMap_cons, quotedChar, if_neg quote]
      simpa using scanned fuel rest

/-- Pieces in quotes make one field, whatever the shell knows. -/
theorem fieldsOf?_quotedPieces {texts : List Bytes} (some_ : texts ≠ []) (sh : Shell) :
    sh.fieldsOf? (quotedPieces texts) = some [texts.flatten] := by
  have fold : ∀ (texts : List Bytes) (sofar : Bytes), (quotedPieces texts).foldlM sh.addPiece ⟨[], some sofar⟩ =
      some ⟨[], some (sofar ++ texts.flatten)⟩ := by
    intro texts
    induction texts with
    | nil => simp [quotedPieces]
    | cons text texts ih =>
      intro sofar
      have rest := ih (sofar ++ text)
      rw [List.append_assoc] at rest
      exact rest
  obtain ⟨first, more, rfl⟩ := List.exists_cons_of_ne_nil some_
  have whole : (quotedPieces (first :: more)).foldlM sh.addPiece ⟨[], none⟩ =
      some ⟨[], some (first ++ more.flatten)⟩ := fold more first
  rw [Shell.fieldsOf?, whole]
  rfl

theorem count_quotes_le (bs : Bytes) : 2 * bs.count '\'' ≤ (bs.flatMap quotedChar).length := by
  induction bs with
  | nil => exact Nat.le_refl 0
  | cons c bs ih =>
    rw [List.flatMap_cons, List.length_append]
    by_cases quote : c = '\''
    · subst quote
      have four : (quotedChar '\'').length = 4 := rfl
      rw [List.count_cons_self]
      omega
    · rw [List.count_cons_of_ne quote]
      omega

/-- A script reads a quoted text as one word that is one field: the bytes of the text. -/
theorem tokensOf_shellQuote (s : String) : ∃ w, tokensOf (bytesOfText (shellQuote s)) = some [(.word w, 1)] ∧
    ∀ sh : Shell, sh.fieldsOf? w = some [bytesOfText s] := by
  obtain ⟨texts, some_, flat, scanned⟩ := @scanWord_quoted (bytesOfText s) [] (by simp)
  rw [List.nil_append] at flat scanned
  refine ⟨quotedPieces texts, ?_, ?_⟩
  · let inside := (bytesOfText s).flatMap quotedChar ++ ['\'']
    have length : inside.length = ((bytesOfText s).flatMap quotedChar).length + 1 := by
      rw [List.length_append, List.length_singleton]
    have scan : scanWord (inside.length + 2) false ('\'' :: inside) = some (quotedPieces texts, []) := by
      have enough := count_quotes_le (bytesOfText s)
      have steps : inside.length + 2 = (inside.length - 2 * (bytesOfText s).count '\'' + 1) +
          2 * (bytesOfText s).count '\'' + 1 := by omega
      rw [steps, scanned]
      simp [scanWord]
    have noRedirection : redirection? ('\'' :: inside) = none := rfl
    have noOperator : operator? ('\'' :: inside) = none := rfl
    rw [tokensOf, bytesOfText_shellQuote]
    show tokens (('\'' :: inside).length + 1) 1 ('\'' :: inside) = _
    unfold tokens
    simp [noRedirection, noOperator, scan, isBlank, tokens]
  · intro sh
    rw [fieldsOf?_quotedPieces some_, flat]

end Keyring.Script

import Keyring.Key
import Keyring.Proofs.Codec.Canonical
import Keyring.Proofs.PublicKey

/-!
# The fields of a public key line

A text that was read as a public key has three fields: its type, its key data in base64
and its comment. The line of the key has the same three, with one blank between them, and
is read as the same key (`fields_kept`).
-/

namespace Keyring.PublicKey

open Codec Text

variable {text : String} {pub : PublicKey} {cs keyType symbols comment : List Char}

/-- A type and symbols without a blank, and then a comment, whatever blanks stand between them and
around them. -/
structure HasFields (cs keyType symbols comment : List Char) : Prop where
  split : ∃ lead sep rest, cs = lead ++ (keyType ++ sep :: (symbols ++ rest)) ∧ IsBlanks lead ∧
    isBlank sep = true ∧ (∀ c, rest.head? = some c → isBlank c = true) ∧ trim rest = comment
  type : IsSolid keyType ∧ keyType ≠ []
  symbols : IsSolid symbols ∧ symbols ≠ []

/-- A word is the first of those of a text where nothing or a blank follows it. -/
theorem words_append_rest {word rest : List Char} (solid : IsSolid word) (some_ : word ≠ [])
    (stops : ∀ c, rest.head? = some c → isBlank c = true) : words (word ++ rest) = word :: words rest := by
  cases rest with
  | nil =>
    rw [List.append_nil, words_of_isSolid solid some_]
    rfl
  | cons c more =>
    have blank : isBlank c = true := stops c rfl
    have single : IsBlanks [c] := by simpa [IsBlanks] using blank
    have rest : words (c :: more) = words more := words_blanks_append single more
    rw [words_append solid some_ blank, rest]

/-- The type and the symbols are the first two words, and those of the comment follow. -/
theorem HasFields.words_eq (fields : HasFields cs keyType symbols comment) :
    words cs = keyType :: symbols :: words comment := by
  obtain ⟨lead, sep, rest, rfl, blanks, separates, stops, rfl⟩ := fields.split
  rw [words_blanks_append blanks, words_append fields.type.1 fields.type.2 separates,
    words_append_rest fields.symbols.1 fields.symbols.2 stops, words_trim]

/-- Blanks around a text are no part of its fields. -/
theorem HasFields.of_trim (fields : HasFields (trim cs) keyType symbols comment) :
    HasFields cs keyType symbols comment := by
  obtain ⟨lead, sep, rest, inner, blanks, separates, stops, rfl⟩ := fields.split
  obtain ⟨front, back, whole, frontBlanks, backBlanks⟩ := exists_trim cs
  refine ⟨⟨front ++ lead, sep, rest ++ back, ?_, ?_, separates, ?_, ?_⟩, fields.type, fields.symbols⟩
  · rw [whole, inner]
    simp only [List.append_assoc, List.cons_append]
  · intro c inside
    rcases List.mem_append.mp inside with inside | inside
    · exact frontBlanks c inside
    · exact blanks c inside
  · intro c first
    cases rest with
    | nil => exact backBlanks c (List.mem_of_head? first)
    | cons d more => exact stops c first
  · have nothing : IsBlanks [] := by simp [IsBlanks]
    exact trim_append_of_blanks nothing backBlanks rest

/-- What stands before the first blank, before the second and after it are the fields. -/
theorem hasFields_of_fieldsOf (found : fieldsOf cs = (keyType, some symbols, comment)) (typed : keyType ≠ [])
    (some_ : symbols ≠ []) : HasFields cs keyType symbols (trim comment) := by
  have nothing : IsBlanks [] := by simp [IsBlanks]
  unfold fieldsOf at found
  cases first : cut isBlank cs with
  | none => simp [first] at found
  | some parts =>
    obtain ⟨before, after⟩ := parts
    obtain ⟨sep, separates, rfl⟩ := split_of_cut first
    have solidType : IsSolid before := isSolid_of_cut first
    simp only [first] at found
    cases second : cut isBlank after with
    | none =>
      have solid : IsSolid after := isSolid_of_cut_eq_none second
      simp only [second, Prod.mk.injEq, Option.some.injEq] at found
      obtain ⟨rfl, rfl, rfl⟩ := found
      refine ⟨⟨[], sep, [], ?_, nothing, separates, ?_, rfl⟩, ⟨solidType, typed⟩, solid, some_⟩
      · rw [List.append_nil, List.nil_append]
      · intro c is
        cases is
    | some parts =>
      obtain ⟨middle, last⟩ := parts
      obtain ⟨sep', separates', rfl⟩ := split_of_cut second
      have solid : IsSolid middle := isSolid_of_cut second
      simp only [second, Prod.mk.injEq, Option.some.injEq] at found
      obtain ⟨rfl, rfl, rfl⟩ := found
      refine ⟨⟨[], sep, sep' :: last, rfl, nothing, separates, ?_, ?_⟩, ⟨solidType, typed⟩, solid, some_⟩
      · intro c is
        obtain rfl : sep' = c := by simpa using is
        exact separates'
      · have single : IsBlanks [sep'] := by simpa [IsBlanks] using separates'
        have dropped := trim_append_of_blanks single nothing last
        rwa [List.append_nil] at dropped

/-- A text that was read has the fields of the key, and in it the key data stand as they are encoded. -/
theorem hasFields_of_ofText (read : ofText text = .ok pub) :
    HasFields text.toList pub.keyType.toList (Base64.encode pub.blob) pub.comment.toList := by
  rcases found : fieldsOf (trim text.toList) with ⟨keyType, encoded, comment⟩
  obtain ⟨symbols, typeIs, known, decoded, _, noteIs⟩ := of_ofText found read
  have typed : keyType ≠ [] := by
    have some_ := keyType_ne_nil known
    rwa [typeIs, String.toList_ofList] at some_
  cases encoded with
  | none => exact absurd rfl symbols
  | some encoded =>
    rw [Option.getD_some] at symbols decoded
    have encodedSome : encoded ≠ [] := by
      rintro rfl
      exact symbols rfl
    have fields := hasFields_of_fieldsOf found typed encodedSome
    -- a field without a blank is not trimmed
    have same : encoded = Base64.encode pub.blob := by
      have canonical := Base64.eq_encode_of_decode decoded
      rw [fields.symbols.1.isTrimmed.trim_eq] at canonical
      exact String.ofList_inj.mp canonical
    rw [same] at fields
    rw [typeIs, noteIs, String.toList_ofList, String.toList_ofList]
    exact fields.of_trim

theorem Sound.hasFields_line (sound : pub.Sound) :
    HasFields pub.line.toList pub.keyType.toList (Base64.encode pub.blob) pub.comment.toList :=
  hasFields_of_ofText sound.ofText_line

/-- Key data are found on a record by the line of the key. -/
theorem HasFields.blob_eq {k : Key} (fields : HasFields k.publicLine.toList keyType symbols comment) :
    k.blob = String.ofList symbols := by
  unfold Key.blob
  rw [fields.words_eq]

/-- A text that was read as a public key has the type of the key, its key data in base64 and its comment
as its fields. The line of the key has the same fields, one blank apart and with nothing around them;
it has the same words, is read as the same key, and on a record it shows the same key data. -/
theorem fields_kept (read : ofText text = .ok pub) :
    ofText pub.line = .ok pub ∧
      HasFields text.toList pub.keyType.toList (Base64.encode pub.blob) pub.comment.toList ∧
      pub.line.toList = pub.keyType.toList ++ ' ' :: (Base64.encode pub.blob ++
        if pub.comment = "" then [] else ' ' :: pub.comment.toList) ∧
      (∃ more, words text.toList = pub.keyType.toList :: Base64.encode pub.blob :: more ∧
        words pub.line.toList = pub.keyType.toList :: Base64.encode pub.blob :: more) ∧
      ∀ k : Key, k.publicLine = pub.line → k.blob = String.ofList (Base64.encode pub.blob) := by
  have sound := sound_of_ofText read
  have fields := hasFields_of_ofText read
  have written := sound.hasFields_line
  refine ⟨sound.ofText_line, fields, ?_, ⟨_, fields.words_eq, written.words_eq⟩, ?_⟩
  · by_cases bare : pub.comment = ""
    · rw [if_pos bare, List.append_nil, line_of_bare bare]
    · rw [if_neg bare, line_of_comment bare]
  · intro k shown
    rw [← shown] at written
    exact written.blob_eq

/-- A text with wide blanks around its fields and in its comment. -/
def spacedText : String := "\u3000ssh-ed25519\u2003AAAAC3NzaC1lZDI1NTE5AAAAIDw8PDw8PDw8PDw8PDw8PDw8PDw8PDw8PDw8PDw8PDw8 \t bob \u00a0 at desk\r\n"

theorem fields_kept_of_spacedText : ∃ pub, ofText spacedText = .ok pub ∧ ofText pub.line = .ok pub ∧
    pub.line = "ssh-ed25519 AAAAC3NzaC1lZDI1NTE5AAAAIDw8PDw8PDw8PDw8PDw8PDw8PDw8PDw8PDw8PDw8PDw8 bob \u00a0 at desk" := by
  have read : (ofText spacedText).toOption.map line =
      some "ssh-ed25519 AAAAC3NzaC1lZDI1NTE5AAAAIDw8PDw8PDw8PDw8PDw8PDw8PDw8PDw8PDw8PDw8PDw8 bob \u00a0 at desk" := by
    decide +kernel
  cases found : ofText spacedText with
  | error e => simp [found, Except.toOption] at read
  | ok pub =>
    refine ⟨pub, rfl, (fields_kept found).1, ?_⟩
    simpa [found, Except.toOption] using read

end Keyring.PublicKey

import Keyring.Proofs.Codec.Base64
import Keyring.PublicKey

/-!
# Public keys there and back

The line of a public key that was read is read as the same key again (`ofText_line`),
whatever blanks stood in the text that it was read from: its type has no blank, its
comment none at the ends, and its key data are written in base64.
-/

namespace Keyring.PublicKey

open Codec Text

variable {text : String} {pub : PublicKey} {keyType comment : List Char} {encoded : Option (List Char)}

theorem nextString_eq_ok_iff {bytes : List UInt8} {found : List UInt8 × List UInt8} :
    nextString bytes = .ok found ↔ Wire.next? bytes = some found := by
  unfold nextString
  cases Wire.next? bytes with
  | none => simp
  | some r => simp

theorem keyType_ne_nil {type : String} {a : Algorithm} (known : Algorithm.ofKeyType? type = some a) :
    type.toList ≠ [] := by
  intro none_
  have empty : type = "" := String.toList_inj.mp none_
  rw [empty] at known
  cases known

/-- What the fields of a text say about the public key that was read from it. -/
theorem of_ofText (fields : fieldsOf (trim text.toList) = (keyType, encoded, comment))
    (read : ofText text = .ok pub) : trim (encoded.getD []) ≠ [] ∧ pub.keyType = String.ofList keyType ∧
      Algorithm.ofKeyType? pub.keyType = some pub.algorithm ∧
      Base64.decode (utf8Bytes (String.ofList (trim (encoded.getD [])))) = .ok pub.blob ∧
      (∃ rest, Wire.next? pub.blob = some (utf8Bytes pub.keyType, rest)) ∧
      pub.comment = String.ofList (trim comment) := by
  unfold ofText at read
  rw [fields] at read
  simp only [bind, Except.bind, pure, Except.pure, throw, throwThe, MonadExceptOf.throw] at read
  by_cases noType : keyType = []
  · simp [noType] at read
  by_cases noSymbols : trim (encoded.getD []) = []
  · simp [noType, noSymbols] at read
  cases known : Algorithm.ofKeyType? (String.ofList keyType) with
  | none => simp [noType, noSymbols, known] at read
  | some a =>
  cases decoded : Base64.decode (utf8Bytes (String.ofList (trim (encoded.getD [])))) with
  | error fault => simp [noType, noSymbols, known, decoded] at read
  | ok bytes =>
  cases next : nextString bytes with
  | error e => simp [noType, noSymbols, known, decoded, next] at read
  | ok found =>
  obtain ⟨embedded, rest⟩ := found
  by_cases same : embedded = utf8Bytes (String.ofList keyType)
  · simp only [noType, noSymbols, ↓reduceIte, known, decoded, next, same, ne_eq, not_true_eq_false,
      Except.ok.injEq] at read
    subst read same
    exact ⟨noSymbols, rfl, known, rfl, ⟨rest, nextString_eq_ok_iff.mp next⟩, rfl⟩
  · simp [noType, noSymbols, known, decoded, next, same] at read

/-- Fields that are in order are read as a public key. -/
theorem ofText_eq_ok (fields : fieldsOf (trim text.toList) = (pub.keyType.toList, encoded, comment))
    (known : Algorithm.ofKeyType? pub.keyType = some pub.algorithm)
    (symbols : trim (encoded.getD []) ≠ [])
    (decoded : Base64.decode (utf8Bytes (String.ofList (trim (encoded.getD [])))) = .ok pub.blob)
    (embedded : ∃ rest, Wire.next? pub.blob = some (utf8Bytes pub.keyType, rest))
    (note : String.ofList (trim comment) = pub.comment) : ofText text = .ok pub := by
  obtain ⟨rest, next⟩ := embedded
  have typed := keyType_ne_nil known
  unfold ofText
  rw [fields]
  simp only [typed, symbols, ↓reduceIte, String.ofList_toList, known, decoded, nextString_eq_ok_iff.mpr next,
    bind, Except.bind, pure, Except.pure, ne_eq, not_true_eq_false, note]

/-- What is known of a public key that was read from a text. -/
structure Sound (pub : PublicKey) : Prop where
  solid : IsSolid pub.keyType.toList
  known : Algorithm.ofKeyType? pub.keyType = some pub.algorithm
  embedded : ∃ rest, Wire.next? pub.blob = some (utf8Bytes pub.keyType, rest)
  trimmed : IsTrimmed pub.comment.toList

/-- The first field of a text has no blank where another field follows it. -/
theorem isSolid_of_fieldsOf {line : List Char} (fields : fieldsOf line = (keyType, encoded, comment))
    (some_ : encoded ≠ none) : IsSolid keyType := by
  unfold fieldsOf at fields
  cases first : cut isBlank line with
  | none =>
    rw [first] at fields
    cases fields
    exact absurd rfl some_
  | some found =>
    obtain ⟨before, after⟩ := found
    rw [first] at fields
    dsimp only at fields
    have front : before = keyType := by
      split at fields
      · exact congrArg Prod.fst fields
      · exact congrArg Prod.fst fields
    exact front ▸ isSolid_of_cut first

theorem sound_of_ofText (read : ofText text = .ok pub) : pub.Sound := by
  rcases fields : fieldsOf (trim text.toList) with ⟨keyType, encoded, comment⟩
  obtain ⟨symbols, typeIs, known, _, embedded, noteIs⟩ := of_ofText fields read
  have follows : encoded ≠ none := by
    rintro rfl
    exact symbols rfl
  refine ⟨?_, known, embedded, ?_⟩
  · rw [typeIs, String.toList_ofList]
    exact isSolid_of_fieldsOf fields follows
  · rw [noteIs, String.toList_ofList]
    exact isTrimmed_trim comment

theorem Sound.typed (sound : pub.Sound) : pub.keyType.toList ≠ [] := keyType_ne_nil sound.known

/-- Key data are never empty, for the type stands in them. -/
theorem Sound.blob_ne_nil (sound : pub.Sound) : pub.blob ≠ [] := by
  obtain ⟨rest, next⟩ := sound.embedded
  intro none_
  rw [none_] at next
  cases next

theorem Sound.encoded_ne_nil (sound : pub.Sound) : Base64.encode pub.blob ≠ [] :=
  Base64.encode_ne_nil sound.blob_ne_nil

theorem line_of_bare (bare : pub.comment = "") :
    pub.line.toList = pub.keyType.toList ++ ' ' :: Base64.encode pub.blob := by
  simp [line, bare, PublicKey.encoded]

theorem line_of_comment (noted : pub.comment ≠ "") : pub.line.toList =
    pub.keyType.toList ++ ' ' :: (Base64.encode pub.blob ++ ' ' :: pub.comment.toList) := by
  simp [line, noted, PublicKey.encoded]

theorem Sound.isTrimmed_line (sound : pub.Sound) : IsTrimmed pub.line.toList := by
  have type := sound.solid.isTrimmed
  have symbols := (Base64.isSolid_encode pub.blob).isTrimmed
  by_cases bare : pub.comment = ""
  · rw [line_of_bare bare]
    exact type.append [' '] symbols sound.typed sound.encoded_ne_nil
  · have noted : pub.comment.toList ≠ [] := fun none_ => bare (String.toList_inj.mp none_)
    have inner := type.append (' ' :: (Base64.encode pub.blob ++ [' '])) sound.trimmed sound.typed noted
    rw [line_of_comment bare]
    simpa using inner

theorem Sound.fieldsOf_line (sound : pub.Sound) :
    fieldsOf pub.line.toList = (pub.keyType.toList, some (Base64.encode pub.blob), pub.comment.toList) := by
  have solid := Base64.isSolid_encode pub.blob
  have blank : isBlank ' ' = true := by decide
  unfold fieldsOf
  by_cases bare : pub.comment = ""
  · rw [line_of_bare bare, cut_append sound.solid blank, bare]
    simp only [cut_eq_none solid]
    rfl
  · rw [line_of_comment bare, cut_append sound.solid blank]
    simp only [cut_append solid blank]

/-- The line of a key that was read is read as that key. -/
theorem Sound.ofText_line (sound : pub.Sound) : ofText pub.line = .ok pub := by
  have solid := (Base64.isSolid_encode pub.blob).isTrimmed.trim_eq
  have fields := sound.fieldsOf_line
  rw [← sound.isTrimmed_line.trim_eq] at fields
  refine ofText_eq_ok fields sound.known ?_ ?_ sound.embedded ?_
  · rw [Option.getD_some, solid]
    exact sound.encoded_ne_nil
  · rw [Option.getD_some, solid]
    exact Base64.decode_encode sound.blob_ne_nil
  · rw [sound.trimmed.trim_eq, String.ofList_toList]

theorem ofText_of_trim {other : String} (same : trim other.toList = trim text.toList) :
    ofText other = ofText text := by
  unfold ofText
  rw [same]

/-- A line feed at the end is none of its comment. -/
theorem Sound.ofText_line_feed (sound : pub.Sound) : ofText (pub.line ++ "\n") = .ok pub := by
  have nothing : IsBlanks [] := by simp [IsBlanks]
  have blank : isBlank '\n' = true := by decide
  have feed : IsBlanks ['\n'] := by simpa [IsBlanks] using blank
  have same : trim (pub.line ++ "\n").toList = trim pub.line.toList := by
    rw [String.toList_append]
    exact trim_append_of_blanks nothing feed pub.line.toList
  rw [ofText_of_trim same, sound.ofText_line]

/-- The second word of the line is the key data in base64. -/
theorem Sound.words_line (sound : pub.Sound) :
    ∃ more, words pub.line.toList = pub.keyType.toList :: Base64.encode pub.blob :: more := by
  have solid := Base64.isSolid_encode pub.blob
  have blank : isBlank ' ' = true := by decide
  by_cases bare : pub.comment = ""
  · refine ⟨[], ?_⟩
    rw [line_of_bare bare, words_append sound.solid sound.typed blank,
      words_of_isSolid solid sound.encoded_ne_nil]
  · refine ⟨words pub.comment.toList, ?_⟩
    rw [line_of_comment bare, words_append sound.solid sound.typed blank,
      words_append solid sound.encoded_ne_nil blank]

end Keyring.PublicKey

import Keyring.Codec.Base64
import Keyring.Proofs.Text.Words
import Keyring.Text.Utf8

/-!
# Base64 there and back

What is encoded is decoded again (`decode_encode`). Bytes fall into threes, of which
the last may be short: the threes in front become full groups of symbols, and the last
one the last group, which alone may be padded.
-/

namespace Keyring.Codec.Base64

def symbolByte (v : Nat) : UInt8 := UInt8.ofNat (symbol v).toNat

theorem symbol_of_le {v : Nat} (large : 64 ≤ v) : symbol v = symbol 63 := by
  unfold symbol
  rw [if_neg (by omega), if_neg (by omega), if_neg (by omega), if_neg (by omega)]
  rfl

/-- What holds of the sixty-four symbols holds of all. -/
theorem symbol_induction {P : Char → Prop} (holds : ∀ v < 64, P (symbol v)) (v : Nat) : P (symbol v) := by
  by_cases small : v < 64
  · exact holds v small
  · rw [symbol_of_le (Nat.le_of_not_lt small)]
    exact holds 63 (by decide)

theorem utf8EncodeChar_symbol (v : Nat) : String.utf8EncodeChar (symbol v) = [symbolByte v] :=
  symbol_induction (P := fun c => String.utf8EncodeChar c = [UInt8.ofNat c.toNat]) (by decide) v

@[simp] theorem symbolByte_beq_pad (v : Nat) : (symbolByte v == pad) = false :=
  symbol_induction (P := fun c => (UInt8.ofNat c.toNat == pad) = false) (by decide) v

@[simp] theorem symbolByte_ne_pad (v : Nat) : symbolByte v ≠ pad := by
  intro same
  have other := symbolByte_beq_pad v
  rw [same] at other
  exact absurd other (by decide)

theorem value?_symbolByte {v : Nat} (small : v < 64) : value? (symbolByte v) = some v :=
  value?_symbol v small

/-- A character of the alphabet or the padding. -/
def IsBase64 (c : Char) : Prop := c.isAlphanum = true ∨ c = '+' ∨ c = '/' ∨ c = '='

instance (c : Char) : Decidable (IsBase64 c) := inferInstanceAs (Decidable (_ ∨ _ ∨ _ ∨ _))

theorem mem_encode {bytes : List UInt8} {c : Char} (inside : c ∈ encode bytes) :
    c = '=' ∨ ∃ v, c = symbol v := by
  fun_induction encode bytes with
  | case1 a b d rest v ih =>
    simp only [List.mem_cons] at inside
    rcases inside with rfl | rfl | rfl | rfl | inside
    · exact .inr ⟨_, rfl⟩
    · exact .inr ⟨_, rfl⟩
    · exact .inr ⟨_, rfl⟩
    · exact .inr ⟨_, rfl⟩
    · exact ih inside
  | case2 a b v =>
    simp only [List.mem_cons, List.not_mem_nil, or_false] at inside
    rcases inside with rfl | rfl | rfl | rfl
    · exact .inr ⟨_, rfl⟩
    · exact .inr ⟨_, rfl⟩
    · exact .inr ⟨_, rfl⟩
    · exact .inl rfl
  | case3 a =>
    simp only [List.mem_cons, List.not_mem_nil, or_false] at inside
    rcases inside with rfl | rfl | rfl | rfl
    · exact .inr ⟨_, rfl⟩
    · exact .inr ⟨_, rfl⟩
    · exact .inl rfl
    · exact .inl rfl
  | case4 => cases inside

theorem isBase64_of_mem_encode {bytes : List UInt8} {c : Char} (inside : c ∈ encode bytes) :
    IsBase64 c := by
  rcases mem_encode inside with rfl | ⟨v, rfl⟩
  · decide
  · exact symbol_induction (by decide) v

theorem isSolid_encode (bytes : List UInt8) : Text.IsSolid (encode bytes) := by
  intro c inside
  rcases mem_encode inside with rfl | ⟨v, rfl⟩
  · decide
  · exact symbol_induction (P := fun c => Text.isBlank c = false) (by decide) v

theorem encode_ne_nil {bytes : List UInt8} (some_ : bytes ≠ []) : encode bytes ≠ [] := by
  match bytes with
  | [] => exact absurd rfl some_
  | [a] => simp [encode]
  | [a, b] => simp [encode]
  | a :: b :: c :: rest => simp [encode]

/-- The six-bit values of bytes in threes. -/
def sextets : List UInt8 → List Nat
  | a :: b :: c :: rest =>
    let v := a.toNat * 65536 + b.toNat * 256 + c.toNat
    v / 262144 :: v / 4096 % 64 :: v / 64 % 64 :: v % 64 :: sextets rest
  | _ => []

/-- Bytes that fall into full threes. -/
def IsFull (bytes : List UInt8) : Prop := bytes.length % 3 = 0

theorem IsFull.of_cons {a b c : UInt8} {rest : List UInt8} (full : IsFull (a :: b :: c :: rest)) :
    IsFull rest := by
  unfold IsFull at full ⊢
  simp only [List.length_cons] at full
  omega

/-- Full threes of which there is no first are none. -/
theorem IsFull.eq_nil {bytes : List UInt8} (full : IsFull bytes)
    (short : ∀ a b c rest, bytes = a :: b :: c :: rest → False) : bytes = [] := by
  match bytes with
  | [] => rfl
  | [a] => cases full
  | [a, b] => cases full
  | a :: b :: c :: rest => exact (short a b c rest rfl).elim

theorem sextets_lt (bytes : List UInt8) : ∀ v ∈ sextets bytes, v < 64 := by
  fun_induction sextets bytes with
  | case1 a b c rest v ih =>
    have := a.toNat_lt
    have := b.toNat_lt
    have := c.toNat_lt
    intro u inside
    simp only [List.mem_cons] at inside
    rcases inside with rfl | rfl | rfl | rfl | inside
    · omega
    · omega
    · omega
    · omega
    · exact ih u inside
  | case2 => simp

theorem length_sextets {bytes : List UInt8} (full : IsFull bytes) :
    (sextets bytes).length = bytes.length / 3 * 4 := by
  fun_induction sextets bytes with
  | case1 a b c rest v ih =>
    simp only [List.length_cons, ih full.of_cons]
    omega
  | case2 bytes short =>
    rw [full.eq_nil short]
    rfl

theorem joinGroups_sextets {bytes : List UInt8} (full : IsFull bytes) :
    joinGroups (sextets bytes) = bytes := by
  fun_induction sextets bytes with
  | case1 a b c rest v ih =>
    have := a.toNat_lt
    have := b.toNat_lt
    have := c.toNat_lt
    have whole : v / 262144 * 262144 + v / 4096 % 64 * 4096 + v / 64 % 64 * 64 + v % 64 = v := by omega
    have first : v / 65536 = a.toNat := by omega
    have second : v / 256 % 256 = b.toNat := by omega
    have third : v % 256 = c.toNat := by omega
    simp only [joinGroups, whole, first, second, third, UInt8.ofNat_toNat, ih full.of_cons]
  | case2 bytes short =>
    rw [full.eq_nil short]
    rfl

theorem encode_append {front : List UInt8} (full : IsFull front) (last : List UInt8) :
    encode (front ++ last) = (sextets front).map symbol ++ encode last := by
  fun_induction sextets front with
  | case1 a b c rest v ih =>
    simp only [List.cons_append, encode, List.map_cons, ih full.of_cons]
    rfl
  | case2 bytes short =>
    rw [full.eq_nil short]
    rfl

/-- Bytes are full threes and a last one of one, two or three bytes. -/
theorem exists_last {bytes : List UInt8} (some_ : bytes ≠ []) :
    ∃ front last, bytes = front ++ last ∧ IsFull front ∧ last ≠ [] ∧ last.length ≤ 3 := by
  have := List.length_pos_iff.mpr some_
  refine ⟨bytes.take ((bytes.length - 1) / 3 * 3), bytes.drop ((bytes.length - 1) / 3 * 3),
    (List.take_append_drop ..).symm, ?_, ?_, ?_⟩
  · rw [IsFull, List.length_take]
    omega
  · rw [← List.length_pos_iff, List.length_drop]
    omega
  · rw [List.length_drop]
    omega

/-! ## Decoding -/

theorem values_symbolBytes {vs : List Nat} (small : ∀ v ∈ vs, v < 64) (offset : Nat) :
    values offset (vs.map symbolByte) = .ok vs := by
  induction vs generalizing offset with
  | nil => rfl
  | cons v rest ih =>
    obtain ⟨first, others⟩ := List.forall_mem_cons.mp small
    rw [List.map_cons, values, value?_symbolByte first]
    simp [ih others, Except.map]

theorem decodeLast_one (offset : Nat) {a b : Nat} (aSmall : a < 64) (bSmall : b < 64) (clear : b % 16 = 0) :
    decodeLast offset [symbolByte a, symbolByte b, pad, pad] = .ok [UInt8.ofNat (a * 4 + b / 16)] := by
  simp [decodeLast, groupFault?, groupFault?.scan, List.findIdx_cons, value?_symbolByte, aSmall, bSmall, clear]

theorem decodeLast_two (offset : Nat) {a b c : Nat} (aSmall : a < 64) (bSmall : b < 64) (cSmall : c < 64)
    (clear : c % 4 = 0) : decodeLast offset [symbolByte a, symbolByte b, symbolByte c, pad] =
      .ok [UInt8.ofNat (a * 4 + b / 16), UInt8.ofNat (b % 16 * 16 + c / 4)] := by
  simp [decodeLast, groupFault?, groupFault?.scan, List.findIdx_cons, value?_symbolByte, aSmall, bSmall,
    cSmall, clear]

theorem decodeLast_full (offset : Nat) {vs : List Nat} (four : vs.length = 4) (small : ∀ v ∈ vs, v < 64) :
    decodeLast offset (vs.map symbolByte) = .ok (joinGroups vs) := by
  obtain ⟨a, b, c, d, rfl⟩ := List.length_eq_four.mp four
  simp only [List.forall_mem_cons] at small
  obtain ⟨aSmall, bSmall, cSmall, dSmall, -⟩ := small
  simp [decodeLast, groupFault?, groupFault?.scan, List.findIdx_cons, value?_symbolByte, aSmall, bSmall,
    cSmall, dSmall]

/-- Full groups and a last one are decoded each by its own rule. -/
theorem decode_append {vs : List Nat} {group tail : List UInt8} (small : ∀ v ∈ vs, v < 64)
    (full : vs.length % 4 = 0) (four : group.length = 4)
    (last : decodeLast vs.length group = .ok tail) :
    decode (vs.map symbolByte ++ group) = .ok (joinGroups vs ++ tail) := by
  have length : (vs.map symbolByte ++ group).length = vs.length + 4 := by
    rw [List.length_append, List.length_map, four]
  have groups : fullGroupsLength (vs.length + 4) = vs.length := by
    unfold fullGroupsLength
    omega
  have noneLeft : ¬ (vs.length + 4) % 4 = 1 := by omega
  have quiet : trailingFault? (vs.map symbolByte ++ group) = none := by
    unfold trailingFault?
    rw [length]
    split
    · rw [if_neg (fun trailing => noneLeft trailing.1)]
    · rfl
  have front : (vs.map symbolByte ++ group).take vs.length = vs.map symbolByte :=
    List.take_left' (List.length_map ..)
  have back : (vs.map symbolByte ++ group).drop vs.length = group :=
    List.drop_left' (List.length_map ..)
  unfold decode
  rw [quiet, length, groups]
  simp only [front, back, values_symbolBytes small, last]
  rfl

/-- The bytes of a text of symbols and padding. -/
def bytesOf (cs : List Char) : List UInt8 := cs.flatMap String.utf8EncodeChar

theorem bytesOf_map_symbol (vs : List Nat) : bytesOf (vs.map symbol) = vs.map symbolByte := by
  induction vs with
  | nil => rfl
  | cons v rest ih =>
    rw [bytesOf] at ih
    simp [bytesOf, utf8EncodeChar_symbol, ih]

theorem utf8EncodeChar_pad : String.utf8EncodeChar '=' = [pad] := by decide

/-- The last group of symbols, padded where it is short, is decoded to the last bytes. -/
theorem decodeLast_encode (offset : Nat) {last : List UInt8} (some_ : last ≠ []) (short : last.length ≤ 3) :
    (bytesOf (encode last)).length = 4 ∧ decodeLast offset (bytesOf (encode last)) = .ok last := by
  match last with
  | [a] =>
    have := a.toNat_lt
    have bytes : bytesOf (encode [a]) = [symbolByte (a.toNat / 4), symbolByte (a.toNat % 4 * 16), pad, pad] := by
      simp [bytesOf, encode, utf8EncodeChar_symbol, utf8EncodeChar_pad]
    have whole : a.toNat / 4 * 4 + a.toNat % 4 * 16 / 16 = a.toNat := by omega
    rw [bytes, decodeLast_one offset (by omega) (by omega) (by omega), whole, UInt8.ofNat_toNat]
    exact ⟨rfl, rfl⟩
  | [a, b] =>
    have := a.toNat_lt
    have := b.toNat_lt
    let v := a.toNat * 65536 + b.toNat * 256
    have bytes : bytesOf (encode [a, b]) =
        [symbolByte (v / 262144), symbolByte (v / 4096 % 64), symbolByte (v / 64 % 64), pad] := by
      simp [bytesOf, encode, utf8EncodeChar_symbol, utf8EncodeChar_pad, v]
    have first : v / 262144 * 4 + v / 4096 % 64 / 16 = a.toNat := by omega
    have second : v / 4096 % 64 % 16 * 16 + v / 64 % 64 / 4 = b.toNat := by omega
    rw [bytes, decodeLast_two offset (by omega) (by omega) (by omega) (by omega), first, second,
      UInt8.ofNat_toNat, UInt8.ofNat_toNat]
    exact ⟨rfl, rfl⟩
  | [a, b, c] =>
    have full : IsFull [a, b, c] := by simp [IsFull]
    have four : (sextets [a, b, c]).length = 4 := rfl
    have bytes : bytesOf (encode [a, b, c]) = (sextets [a, b, c]).map symbolByte := by
      rw [← bytesOf_map_symbol]
      rfl
    rw [bytes, decodeLast_full offset four (sextets_lt _), joinGroups_sextets full]
    exact ⟨rfl, rfl⟩

theorem decode_encode {bytes : List UInt8} (some_ : bytes ≠ []) :
    decode (Text.utf8Bytes (String.ofList (encode bytes))) = .ok bytes := by
  obtain ⟨front, last, rfl, full, lastSome, short⟩ := exists_last some_
  have text : Text.utf8Bytes (String.ofList (encode (front ++ last))) =
      (sextets front).map symbolByte ++ bytesOf (encode last) := by
    rw [← bytesOf_map_symbol, Text.utf8Bytes, String.toList_ofList, encode_append full]
    exact List.flatMap_append
  obtain ⟨four, decoded⟩ := decodeLast_encode (sextets front).length lastSome short
  have groups : (sextets front).length % 4 = 0 := by
    rw [length_sextets full]
    exact Nat.mul_mod_left ..
  rw [text, decode_append (sextets_lt front) groups four decoded, joinGroups_sextets full]

end Keyring.Codec.Base64

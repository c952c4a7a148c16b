import Keyring.Codec.Wire
import Keyring.Proofs.Codec.Canonical
import Mathlib.Data.Nat.Size
import Mathlib.Tactic.Linarith
import Mathlib.Tactic.Ring

/-!
# Strings in key data

A string is read from key data just where it was written there (`next?_eq_some_iff`), and
none is read just where its length or the string itself is cut short
(`next?_eq_none_iff`). The size of a string is the number of binary digits of the number
that its bytes spell (`bitLength_eq_size`), so bytes of zero in front do not count.
-/

namespace Keyring.Codec.Wire

variable {bytes s rest size : List UInt8} {n : Nat}

/-- The number that bytes spell, the highest first. -/
def number (bytes : List UInt8) : Nat := bytes.foldl (fun n b => n * 256 + b.toNat) 0

theorem foldl_number (bytes : List UInt8) (start : Nat) :
    bytes.foldl (fun n b => n * 256 + b.toNat) start = start * 256 ^ bytes.length + number bytes := by
  induction bytes generalizing start with
  | nil => simp [number]
  | cons b rest ih =>
    have whole : number (b :: rest) = b.toNat * 256 ^ rest.length + number rest := by
      rw [number, List.foldl_cons, ih]
      simp
    rw [List.foldl_cons, ih, whole, List.length_cons, Nat.pow_succ']
    ring

theorem number_cons (b : UInt8) (rest : List UInt8) :
    number (b :: rest) = b.toNat * 256 ^ rest.length + number rest := by
  rw [number, List.foldl_cons, foldl_number]
  simp

theorem number_lt (bytes : List UInt8) : number bytes < 256 ^ bytes.length := by
  induction bytes with
  | nil => simp [number]
  | cons b rest ih =>
    have byte : b.toNat + 1 ≤ 256 := b.toNat_lt
    have top : (b.toNat + 1) * 256 ^ rest.length ≤ 256 * 256 ^ rest.length := Nat.mul_le_mul_right _ byte
    rw [number_cons, List.length_cons, Nat.pow_succ']
    linarith

theorem number_zeros (k : Nat) (bytes : List UInt8) : number (List.replicate k 0 ++ bytes) = number bytes := by
  induction k with
  | zero => rfl
  | succ k ih =>
    rw [List.replicate_succ, List.cons_append, number_cons, ih]
    simp

theorem number_dropWhile (bytes : List UInt8) : number (bytes.dropWhile (· == 0)) = number bytes := by
  induction bytes with
  | nil => rfl
  | cons b rest ih =>
    by_cases zero : b = 0
    · subst zero
      rw [List.dropWhile_cons_of_pos (by simp), ih, number_cons]
      simp
    · rw [List.dropWhile_cons_of_neg (by simpa using zero)]

theorem byteBits_eq_size (b : UInt8) : byteBits b = Nat.size b.toNat := by
  unfold byteBits
  by_cases zero : b = 0
  · simp [zero]
  · have some_ : b.toNat ≠ 0 := by simpa [← UInt8.toNat_inj] using zero
    rw [if_neg zero]
    apply Nat.le_antisymm
    · exact Nat.lt_size.mpr (Nat.log2_self_le some_)
    · exact Nat.size_le.mpr Nat.lt_log2_self

/-- Bytes after a leading one that is not zero add eight digits each. -/
theorem size_cons {b : UInt8} (some_ : b ≠ 0) (rest : List UInt8) :
    Nat.size (number (b :: rest)) = Nat.size b.toNat + 8 * rest.length := by
  have power : 256 ^ rest.length = 2 ^ (8 * rest.length) := by rw [Nat.pow_mul]
  have below : number rest < 2 ^ (8 * rest.length) := power ▸ number_lt rest
  have positive : 0 < b.toNat := by
    rw [Nat.pos_iff_ne_zero]
    simpa [← UInt8.toNat_inj] using some_
  rw [number_cons, power]
  apply Nat.le_antisymm
  · have top : b.toNat + 1 ≤ 2 ^ Nat.size b.toNat := Nat.lt_size_self _
    have scaled := Nat.mul_le_mul_right (2 ^ (8 * rest.length)) top
    rw [Nat.size_le, Nat.pow_add]
    linarith
  · obtain ⟨k, digits⟩ : ∃ k, Nat.size b.toNat = k + 1 := Nat.exists_eq_succ_of_ne_zero (Nat.size_pos.mpr positive).ne'
    have lead : 2 ^ k ≤ b.toNat := Nat.lt_size.mp (by omega)
    have scaled := Nat.mul_le_mul_right (2 ^ (8 * rest.length)) lead
    have inside : k + 8 * rest.length < Nat.size (b.toNat * 2 ^ (8 * rest.length) + number rest) := by
      rw [Nat.lt_size, Nat.pow_add]
      linarith
    omega

/-- The size of a string is that of the number that it spells. -/
theorem bitLength_eq_size (bytes : List UInt8) : bitLength bytes = Nat.size (number bytes) := by
  rw [← number_dropWhile, bitLength]
  cases lead : bytes.dropWhile (· == 0) with
  | nil => rfl
  | cons b rest =>
    have some_ : b ≠ 0 := by
      have first : (bytes.dropWhile (· == 0)).head? = some b := by rw [lead, List.head?_cons]
      intro zero
      have holds := List.head?_dropWhile_not (· == (0 : UInt8)) bytes
      simp [first, zero] at holds
    rw [size_cons some_, ← byteBits_eq_size]

theorem size_number_le (bytes : List UInt8) : Nat.size (number bytes) ≤ 8 * bytes.length := by
  rw [Nat.size_le, Nat.pow_mul]
  exact number_lt bytes

theorem length_lengthBytes (n : Nat) : (lengthBytes n).length = 4 := rfl

theorem number_four (a b c d : UInt8) :
    number [a, b, c, d] = a.toNat * 16777216 + b.toNat * 65536 + c.toNat * 256 + d.toNat := by
  simp only [number, List.foldl_cons, List.foldl_nil]
  omega

theorem exists_four (four : size.length = 4) : ∃ a b c d, size = [a, b, c, d] := by
  match size, four with
  | [a, b, c, d], _ => exact ⟨a, b, c, d, rfl⟩

/-- Four bytes spell every length that is written in them. -/
theorem number_lengthBytes (small : n < 2 ^ 32) : number (lengthBytes n) = n := by
  rw [lengthBytes, List.map_cons, List.map_cons, List.map_cons, List.map_cons, List.map_nil, number_four,
    Base64.toNat_ofNat (by omega), Base64.toNat_ofNat (by omega), Base64.toNat_ofNat (by omega),
    Base64.toNat_ofNat (by omega)]
  omega

/-- Four bytes are what is written for the length that they spell. -/
theorem lengthBytes_number (four : size.length = 4) : lengthBytes (number size) = size := by
  obtain ⟨a, b, c, d, rfl⟩ := exists_four four
  have ha := a.toNat_lt
  have hb := b.toNat_lt
  have hc := c.toNat_lt
  have hd := d.toNat_lt
  rw [number_four]
  generalize whole : a.toNat * 16777216 + b.toNat * 65536 + c.toNat * 256 + d.toNat = n
  have first : n / 16777216 % 256 = a.toNat := by omega
  have second : n / 65536 % 256 = b.toNat := by omega
  have third : n / 256 % 256 = c.toNat := by omega
  have fourth : n % 256 = d.toNat := by omega
  simp [lengthBytes, first, second, third, fourth]

theorem next?_append (four : size.length = 4) (more : List UInt8) : next? (size ++ more) =
    if more.length < number size then none else some (more.take (number size), more.drop (number size)) := by
  obtain ⟨a, b, c, d, rfl⟩ := exists_four four
  rw [number_four]
  rfl

theorem next?_of_short (short : bytes.length < 4) : next? bytes = none := by
  match bytes with
  | [] | [_] | [_, _] | [_, _, _] => rfl
  | _ :: _ :: _ :: _ :: _ =>
    simp only [List.length_cons] at short
    omega

/-- A string cannot be read: its length is not whole, or the string that it announces is not. -/
inductive CutShort (bytes : List UInt8) : Prop where
  | length (short : bytes.length < 4)
  | content (size rest : List UInt8) (whole : bytes = size ++ rest) (four : size.length = 4)
    (short : rest.length < number size)

/-- Bytes start with a length, unless they are too few. -/
theorem exists_size (bytes : List UInt8) :
    bytes.length < 4 ∨ ∃ size more, bytes = size ++ more ∧ size.length = 4 := by
  by_cases short : bytes.length < 4
  · exact .inl short
  · refine .inr ⟨bytes.take 4, bytes.drop 4, (List.take_append_drop 4 bytes).symm, ?_⟩
    rw [List.length_take]
    omega

/-- No string is read just where one is cut short. -/
theorem next?_eq_none_iff : next? bytes = none ↔ CutShort bytes := by
  constructor
  · intro nothing
    rcases exists_size bytes with short | ⟨size, more, rfl, four⟩
    · exact .length short
    · refine .content size more rfl four ?_
      by_contra whole
      rw [next?_append four, if_neg whole] at nothing
      cases nothing
  · rintro (short | ⟨size, more, rfl, four, short⟩)
    · exact next?_of_short short
    · rw [next?_append four, if_pos short]

/-- What is written first is read first, unless it is longer than four bytes can say. -/
theorem next?_encode (short : s.length < 2 ^ 32) (rest : List UInt8) :
    next? (encode s ++ rest) = some (s, rest) := by
  rw [encode, List.append_assoc, next?_append (length_lengthBytes _), number_lengthBytes short]
  simp

theorem next?_eq_some_iff :
    next? bytes = some (s, rest) ↔ bytes = encode s ++ rest ∧ s.length < 2 ^ 32 := by
  constructor
  · intro next
    rcases exists_size bytes with short | ⟨size, more, rfl, four⟩
    · rw [next?_of_short short] at next
      cases next
    · rw [next?_append four] at next
      split at next
      · cases next
      · rename_i whole
        cases next
        have length : (more.take (number size)).length = number size := by
          rw [List.length_take]
          omega
        constructor
        · rw [encode, length, lengthBytes_number four]
          simp
        · have bound := number_lt size
          rw [four] at bound
          omega
  · rintro ⟨rfl, short⟩
    exact next?_encode short rest

theorem eq_encode_of_next? (next : next? bytes = some (s, rest)) : bytes = encode s ++ rest :=
  (next?_eq_some_iff.mp next).1

end Keyring.Codec.Wire

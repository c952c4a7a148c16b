import Keyring.Proofs.Codec.Canonical
import Keyring.Text.Utf8

/-!
# Texts of ASCII characters

A character below 128 is one byte of its own number, and every byte of another character
is 128 or more. So the bytes below 128 of a text are its characters below 128, in their
order.
-/

namespace Keyring.Text

variable {c : Char} {s : String}

/-- The byte of a character below 128. -/
def asciiByte (c : Char) : UInt8 := UInt8.ofNat c.toNat

theorem toNat_asciiByte (ascii : c.toNat < 128) : (asciiByte c).toNat = c.toNat :=
  Codec.Base64.toNat_ofNat (by omega)

theorem ofNat_asciiByte (ascii : c.toNat < 128) : Char.ofNat (asciiByte c).toNat = c := by
  rw [toNat_asciiByte ascii, Char.ofNat_toNat]

theorem asciiByte_inj {d : Char} (c_ : c.toNat < 128) (d_ : d.toNat < 128) (same : asciiByte c = asciiByte d) :
    c = d := by
  rw [← ofNat_asciiByte c_, same, ofNat_asciiByte d_]

theorem utf8EncodeChar_of_ascii (ascii : c.toNat < 128) : String.utf8EncodeChar c = [asciiByte c] := by
  have small : c.val.toNat ≤ 127 := Nat.le_of_lt_succ ascii
  simp only [String.utf8EncodeChar, small, ↓reduceIte]
  rfl

theorem le_of_mem_utf8EncodeChar (wide : 128 ≤ c.toNat) {b : UInt8} (member : b ∈ String.utf8EncodeChar c) :
    128 ≤ b.toNat := by
  have notSmall : ¬c.val.toNat ≤ 127 := Nat.not_le.mpr wide
  -- each byte of a longer character is a few bits with a mark that is 128 or more
  have marked {bits mark : Nat} (few : bits + mark < 256) (high : 128 ≤ mark) :
      128 ≤ (UInt8.ofNat (bits + mark)).toNat := by
    rw [Codec.Base64.toNat_ofNat few]
    omega
  simp only [String.utf8EncodeChar, notSmall, ↓reduceIte] at member
  split at member
  · simp only [List.mem_cons, List.not_mem_nil, or_false] at member
    rcases member with rfl | rfl <;> exact marked (by omega) (by omega)
  split at member
  · simp only [List.mem_cons, List.not_mem_nil, or_false] at member
    rcases member with rfl | rfl | rfl <;> exact marked (by omega) (by omega)
  · simp only [List.mem_cons, List.not_mem_nil, or_false] at member
    rcases member with rfl | rfl | rfl | rfl <;> exact marked (by omega) (by omega)

/-- A text is of characters below 128 just where its bytes are below 128. -/
theorem ascii_iff : (∀ c ∈ s.toList, c.toNat < 128) ↔ ∀ b ∈ utf8Bytes s, b.toNat < 128 := by
  simp only [utf8Bytes, List.mem_flatMap]
  constructor
  · rintro ascii b ⟨c, member, inside⟩
    rw [utf8EncodeChar_of_ascii (ascii c member), List.mem_singleton] at inside
    rw [inside, toNat_asciiByte (ascii c member)]
    exact ascii c member
  · intro small c member
    by_contra wide
    have some_ : String.utf8EncodeChar c ≠ [] := String.utf8EncodeChar_ne_nil
    obtain ⟨b, more, bytes⟩ := List.exists_cons_of_ne_nil some_
    have inside : b ∈ String.utf8EncodeChar c := bytes ▸ List.mem_cons_self
    have high := le_of_mem_utf8EncodeChar (Nat.not_lt.mp wide) inside
    have low := small b ⟨c, member, inside⟩
    omega

theorem utf8Bytes_of_ascii (ascii : ∀ c ∈ s.toList, c.toNat < 128) : utf8Bytes s = s.toList.map asciiByte := by
  rw [utf8Bytes, List.map_eq_flatMap]
  exact List.flatMap_congr fun c member => utf8EncodeChar_of_ascii (ascii c member)

end Keyring.Text

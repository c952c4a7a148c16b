import Keyring.Text.Utf8

/-!
# Characters by their bytes

Every character has a byte at least, so a text can be cut where some of its characters end.
-/

namespace Keyring.Text

@[simp] theorem byteCount_nil : byteCount [] = 0 := rfl

@[simp] theorem byteCount_cons (c : Char) (cs : List Char) :
    byteCount (c :: cs) = c.utf8Size + byteCount cs := rfl

@[simp] theorem byteCount_append (front back : List Char) :
    byteCount (front ++ back) = byteCount front + byteCount back := by
  induction front with
  | nil => rw [List.nil_append, byteCount_nil, Nat.zero_add]
  | cons c rest ih => rw [List.cons_append, byteCount_cons, byteCount_cons, ih, Nat.add_assoc]

theorem byteCount_pos {cs : List Char} (some_ : cs ≠ []) : 0 < byteCount cs := by
  obtain ⟨c, rest, rfl⟩ := List.exists_cons_of_ne_nil some_
  have wide := c.utf8Size_pos
  rw [byteCount_cons]
  omega

theorem cutAtByte?_append (front back : List Char) :
    cutAtByte? (front ++ back) (byteCount front) = some (front, back) := by
  induction front with
  | nil =>
    rw [List.nil_append, byteCount_nil]
    cases back <;> rfl
  | cons c rest ih =>
    have wide := c.utf8Size_pos
    obtain ⟨n, total⟩ : ∃ n, c.utf8Size + byteCount rest = n + 1 :=
      ⟨c.utf8Size + byteCount rest - 1, by omega⟩
    have left : n + 1 - c.utf8Size = byteCount rest := by omega
    rw [List.cons_append, byteCount_cons, total, cutAtByte?, if_pos (by omega), left, ih]
    rfl

end Keyring.Text

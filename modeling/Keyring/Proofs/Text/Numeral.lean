import Keyring.Text.Numeral

/-!
# Numerals

What is written of a number are digits, at least one, and they tell the number.
-/

namespace Keyring.Text

variable {c : Char} {width n : Nat}

theorem isDigit_iff : isDigit c = true ↔ 48 ≤ c.toNat ∧ c.toNat ≤ 57 := by
  simp [isDigit, Char.le_def, UInt32.le_iff_toNat_le]

theorem isDigit_of_mem_decimal (member : c ∈ decimal n) : isDigit c = true := by
  have digit : c.isDigit = true := Nat.isDigit_of_mem_toDigits (by decide) (by decide) member
  simpa [Char.isDigit, isDigit, Char.le_def, UInt32.le_iff_toNat_le] using digit

theorem exists_decimal_eq_cons (n : Nat) : ∃ c more, decimal n = c :: more ∧ isDigit c = true := by
  obtain ⟨c, more, shape⟩ := List.exists_cons_of_ne_nil (@Nat.toDigits_ne_nil n 10)
  exact ⟨c, more, shape, isDigit_of_mem_decimal (n := n) (by rw [decimal, shape]; exact List.mem_cons_self)⟩

theorem isDigit_of_mem_decimalPadded (member : c ∈ decimalPadded width n) : isDigit c = true := by
  rcases List.mem_append.mp member with zero | digit
  · rw [List.eq_of_mem_replicate zero]
    decide
  · exact isDigit_of_mem_decimal digit

theorem decimalPadded_ne_nil (width n : Nat) : decimalPadded width n ≠ [] := by
  intro nothing
  exact Nat.toDigits_ne_nil (List.append_eq_nil_iff.mp nothing).2

theorem decimal_inj {m n : Nat} (same : decimal m = decimal n) : m = n := by
  have value (k : Nat) : Nat.ofDigitChars 10 (decimal k) 0 = k :=
    Nat.ofDigitChars_toDigits (by decide) (by decide)
  rw [← value m, same, value]

theorem toList_toString (n : Nat) : (toString n).toList = decimal n := by
  rw [Nat.toString_eq_repr, Nat.toList_repr, decimal]

theorem digitValue?_of_isDigit (digit : isDigit c = true) : digitValue? c = some (c.toNat - '0'.toNat) := by
  have bounds : '0' ≤ c ∧ c ≤ '9' := by simpa [isDigit] using digit
  rw [digitValue?, if_pos bounds]

theorem natOfDigits?_of_isDigit {ds : List Char} (some_ : ds ≠ []) (digits : ∀ d ∈ ds, isDigit d = true) :
    natOfDigits? 10 ds = some (Nat.ofDigitChars 10 ds 0) := by
  rw [natOfDigits?, if_neg some_]
  -- the fold is followed from any value read so far
  have fold : ∀ sofar, ds.foldl (fun acc c => do
      let n ← acc
      let d ← digitValue? c
      if d < 10 then some (n * 10 + d) else none) (some sofar) = some (Nat.ofDigitChars 10 ds sofar) := by
    clear some_
    induction ds with
    | nil => exact fun _ => rfl
    | cons d ds ih =>
      intro sofar
      have digit := digits d List.mem_cons_self
      have small : d.toNat - 48 < 10 := by
        have := (isDigit_iff.mp digit).2
        omega
      rw [List.foldl_cons, Nat.ofDigitChars_cons]
      have step := ih (fun e member => digits e (List.mem_cons_of_mem _ member))
        (10 * sofar + (d.toNat - '0'.toNat))
      simpa [digitValue?_of_isDigit digit, small, Nat.mul_comm] using step
  exact fold 0

theorem natOfDigits?_decimal (n : Nat) : natOfDigits? 10 (decimal n) = some n := by
  rw [@natOfDigits?_of_isDigit (decimal n) Nat.toDigits_ne_nil fun d => isDigit_of_mem_decimal]
  exact congrArg some (Nat.ofDigitChars_toDigits (by decide) (by decide))

theorem ofDigitChars_decimalPadded (width n : Nat) : Nat.ofDigitChars 10 (decimalPadded width n) 0 = n := by
  rw [decimalPadded, zeroPadded, Nat.ofDigitChars_append, Nat.ofDigitChars_replicate_zero, Nat.mul_zero]
  exact Nat.ofDigitChars_toDigits (by decide) (by decide)

theorem natOfDigits?_decimalPadded (width n : Nat) : natOfDigits? 10 (decimalPadded width n) = some n := by
  rw [natOfDigits?_of_isDigit (decimalPadded_ne_nil width n) fun d => isDigit_of_mem_decimalPadded,
    ofDigitChars_decimalPadded]

theorem length_decimalPadded (positive : 0 < width) (small : n < Nat.pow 10 width) :
    (decimalPadded width n).length = width := by
  have short : (decimal n).length ≤ width := (Nat.length_toDigits_le_iff (by decide) positive).mpr small
  rw [decimalPadded, zeroPadded, List.length_append, List.length_replicate]
  omega

theorem head_decimal (positive : 0 < n) : (decimal n).head? ≠ some '0' := by
  induction n using Nat.strongRecOn with
  | ind n ih =>
    by_cases small : n < 10
    · rw [decimal, Nat.toDigits_of_lt_base small, List.head?_cons]
      intro zero
      have : n = 0 := by simpa using zero
      omega
    · have inner := ih (n / 10) (by omega) (by omega)
      obtain ⟨c, more, front⟩ := List.exists_cons_of_ne_nil (@Nat.toDigits_ne_nil (n / 10) 10)
      rw [decimal, front] at inner
      rw [decimal, Nat.toDigits_of_base_le (by decide) (by omega), front]
      exact inner

/-- A front of digits is read as a whole where the bound is reached or another character follows. -/
theorem spanDigits_append {ds rest : List Char} {most : Nat} (digits : ∀ d ∈ ds, isDigit d = true)
    (fits : ds.length ≤ most) (stops : ds.length = most ∨ ∀ c, rest.head? = some c → isDigit c = false) :
    spanDigits most (ds ++ rest) = (ds, rest) := by
  induction ds generalizing most with
  | nil =>
    rcases most with _ | most
    · rfl
    · have other := stops.resolve_left (by simp)
      rcases rest with _ | ⟨c, rest⟩
      · rfl
      · simp [spanDigits, other c rfl]
  | cons d ds ih =>
    obtain ⟨most, rfl⟩ : ∃ m, most = m + 1 := ⟨most - 1, by simp at fits; omega⟩
    have step := ih (fun e member => digits e (List.mem_cons_of_mem _ member)) (by simpa using fits)
      (stops.imp_left (by simp))
    simp [spanDigits, digits d List.mem_cons_self, step]

theorem natOfDigits?_concat {base d : Nat} {ds : List Char} (front : natOfDigits? base ds = some n)
    (digit : digitValue? c = some d) (small : d < base) : natOfDigits? base (ds ++ [c]) = some (n * base + d) := by
  unfold natOfDigits? at front ⊢
  split at front
  · cases front
  · rw [if_neg (by simp), List.foldl_append, front]
    simp [digit, small]

theorem natOfDigits?_zeros {base : Nat} {ds : List Char} (positive : 0 < base) (some_ : ds ≠ []) (k : Nat) :
    natOfDigits? base (List.replicate k '0' ++ ds) = natOfDigits? base ds := by
  induction k with
  | zero => rfl
  | succ k ih =>
    rw [← ih, List.replicate_succ, List.cons_append, natOfDigits?, natOfDigits?, if_neg (List.cons_ne_nil _ _),
      if_neg (by simp [some_]), List.foldl_cons]
    simp [show digitValue? '0' = some 0 from rfl, positive]

theorem natOfDigits?_upperHex (width n : Nat) :
    natOfDigits? 16 ((hexPadded width n).map Char.toUpper) = some n := by
  have digit : ∀ d < 16, digitValue? (Nat.digitChar d).toUpper = some d := by decide
  have value : ∀ m, natOfDigits? 16 ((Nat.toDigits 16 m).map Char.toUpper) = some m := by
    intro m
    induction m using Nat.strongRecOn with
    | ind m ih =>
      by_cases small : m < 16
      · rw [Nat.toDigits_of_lt_base small]
        simp [natOfDigits?, digit m small, small]
      · rw [Nat.toDigits_of_base_le (by decide) (by omega), List.map_append]
        rw [List.map_singleton, natOfDigits?_concat (ih (m / 16) (by omega)) (digit (m % 16) (by omega)) (by omega)]
        exact congrArg some (Nat.div_add_mod' m 16)
  have zero : Char.toUpper '0' = '0' := rfl
  rw [hexPadded, zeroPadded, List.map_append, List.map_replicate, zero,
    natOfDigits?_zeros (by decide) (by simp [Nat.toDigits_ne_nil]), value]

theorem digit_of_mem_upperHex (member : c ∈ (hexPadded width n).map Char.toUpper) :
    ∃ d < 16, c = (Nat.digitChar d).toUpper := by
  have digits : ∀ m, ∀ e ∈ Nat.toDigits 16 m, ∃ d < 16, e = Nat.digitChar d := by
    intro m
    induction m using Nat.strongRecOn with
    | ind m ih =>
      by_cases small : m < 16
      · rw [Nat.toDigits_of_lt_base small]
        exact fun e member => ⟨m, small, List.mem_singleton.mp member⟩
      · rw [Nat.toDigits_of_base_le (by decide) (by omega)]
        intro e member
        rcases List.mem_append.mp member with front | last
        · exact ih (m / 16) (by omega) e front
        · exact ⟨m % 16, by omega, List.mem_singleton.mp last⟩
  obtain ⟨e, isDigit, rfl⟩ := List.mem_map.mp member
  rcases List.mem_append.mp isDigit with zero | digit
  · exact ⟨0, by decide, congrArg Char.toUpper (List.eq_of_mem_replicate zero)⟩
  · obtain ⟨d, small, rfl⟩ := digits n e digit
    exact ⟨d, small, rfl⟩

theorem length_hexPadded (positive : 0 < width) (small : n < Nat.pow 16 width) :
    (hexPadded width n).length = width := by
  have short : (Nat.toDigits 16 n).length ≤ width := (Nat.length_toDigits_le_iff (by decide) positive).mpr small
  rw [hexPadded, zeroPadded, List.length_append, List.length_replicate]
  omega

end Keyring.Text

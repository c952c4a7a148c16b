import Keyring.Proofs.Lifecycle.NewName
import Keyring.Proofs.Time.Calendar

/-!
# The end of the search for a name

Nothing limits the search for the name of a key that follows another: it goes on from number
to number until a name is free (`Finds`), and if none ever is it does not end
(`exists_finds_iff`). It does end, for every inventory and disk, no later than one step past
the number of their keys and entries, and the name for a rotation is the one that it finds
(`rotationName_found`).
-/

namespace Keyring.Lifecycle

open Disk Layout Text Time

variable {taken : String → Bool} {base found other : String} {n : Nat}

theorem Finds.unique (finds : Finds taken base n found) (finds' : Finds taken base n other) : found = other := by
  induction finds with
  | here free =>
    cases finds' with
    | here => rfl
    | next isTaken =>
      rw [free] at isTaken
      cases isTaken
  | next isTaken _ ih =>
    cases finds' with
    | here free =>
      rw [free] at isTaken
      cases isTaken
    | next _ later => exact ih later

/-- The search ends just where there is a free name. -/
theorem exists_finds_iff : (∃ found, Finds taken base n found) ↔ ∃ i, taken (numberedName base (n + i)) = false := by
  constructor
  · rintro ⟨found, finds⟩
    obtain ⟨i, -, free, -⟩ := finds.exists_free
    exact ⟨i, free⟩
  · rintro ⟨i, free⟩
    exact ⟨_, @finds_firstFree taken base (i + 1) n ⟨i, by omega, free⟩⟩

/-- The first name that is tried for a key that is to follow another. -/
def datedName (name : String) (now : Instant) : String := name ++ "-" ++ now.dateStamp

/-- In a year of four digits the date is eight digits, which read as year, month and day. -/
theorem dateStamp_digits {now : Instant} (year : 0 ≤ now.date.year ∧ now.date.year ≤ 9999) :
    now.dateStamp.toList.length = 8 ∧ natOfDigits? 10 now.dateStamp.toList =
      some (now.date.year.toNat * 10000 + now.date.month * 100 + now.date.dayOfMonth) := by
  have whole : now.dateStamp.toList = decimalPadded 4 now.date.year.toNat ++ decimalPadded 2 now.date.month ++
      decimalPadded 2 now.date.dayOfMonth := by
    rw [Instant.dateStamp, Date.text, yearText, if_pos year, String.toList_ofList]
    simp only [List.append_nil]
  have years : (decimalPadded 4 now.date.year.toNat).length = 4 :=
    length_decimalPadded (by decide) (show now.date.year.toNat < 10000 by omega)
  have months : (decimalPadded 2 now.date.month).length = 2 := by
    have le : now.date.month ≤ 12 := (Date.month_ofDay _).2
    exact length_decimalPadded (by decide) (show now.date.month < 100 by omega)
  have days : (decimalPadded 2 now.date.dayOfMonth).length = 2 := by
    have le : now.date.dayOfMonth ≤ 31 := (Date.dayOfMonth_ofDay _).2.trans (daysInMonth_le _ _)
    exact length_decimalPadded (by decide) (show now.date.dayOfMonth < 100 by omega)
  rw [whole]
  constructor
  · simp only [List.length_append, years, months, days]
  · have some_ := decimalPadded_ne_nil 2 now.date.dayOfMonth
    rw [natOfDigits?_of_isDigit (by simp [some_])]
    · rw [Nat.ofDigitChars_append, Nat.ofDigitChars_append, ofDigitChars_decimalPadded,
        Nat.ofDigitChars_eq_ofDigitChars_zero, days, ofDigitChars_decimalPadded,
        Nat.ofDigitChars_eq_ofDigitChars_zero, months, ofDigitChars_decimalPadded]
      exact congrArg some (by omega)
    · intro c member
      rcases List.mem_append.mp member with front | inDay
      · rcases List.mem_append.mp front with inYear | inMonth
        · exact isDigit_of_mem_decimalPadded inYear
        · exact isDigit_of_mem_decimalPadded inMonth
      · exact isDigit_of_mem_decimalPadded inDay

variable {inv : Inventory} {d : Disk} {vault : Path} {name : String} {now : Instant}

theorem isTaken_iff : isTaken inv d vault name = true ↔
    name ∈ inv.keyNames ∨ d.exists_ (privateFile vault name) = true := by
  rw [isTaken, Bool.or_eq_true, Option.isSome_iff_ne_none, Ne, Inventory.findKey?_eq_none_iff, not_not]

/-- Of the names up to one past the number of keys and entries, one is free. -/
theorem exists_free_name (inv : Inventory) (d : Disk) (vault : Path) (name : String) (now : Instant) :
    ∃ i < inv.keys.length + d.entries.length + 1,
      isTaken inv d vault (numberedName (datedName name now) (1 + i)) = false := by
  obtain ⟨names, many, listed⟩ := exists_names inv d vault name now
  exact exists_free (by omega) listed

/-- However many tries there are past the number of keys and entries, the search ends in them. -/
theorem finds_of_tries {tries : Nat} (many : inv.keys.length + d.entries.length < tries) :
    Finds (isTaken inv d vault) (datedName name now) 1
      (firstFree (isTaken inv d vault) (datedName name now) tries 1) := by
  obtain ⟨i, below, free⟩ := exists_free_name inv d vault name now
  exact finds_firstFree ⟨i, by omega, free⟩

/-- The search ends for every inventory and every disk, and the name for a rotation is what it finds:
the first of the dated name and its numbered ones that is no key's name and no file in the vault. -/
theorem rotationName_found (inv : Inventory) (d : Disk) (vault : Path) (name : String) (now : Instant) :
    (∀ found, Finds (isTaken inv d vault) (datedName name now) 1 found ↔
      found = rotationName inv d vault name now) ∧
    (∀ tries, inv.keys.length + d.entries.length < tries →
      firstFree (isTaken inv d vault) (datedName name now) tries 1 = rotationName inv d vault name now) ∧
    rotationName inv d vault name now ∉ inv.keyNames ∧
    d.exists_ (privateFile vault (rotationName inv d vault name now)) = false ∧
    (∃ n, 1 ≤ n ∧ n ≤ inv.keys.length + d.entries.length + 1 ∧
      rotationName inv d vault name now =
        (if n = 1 then datedName name now else datedName name now ++ "-" ++ toString n) ∧
      ∀ m, 1 ≤ m → m < n → numberedName (datedName name now) m ∈ inv.keyNames ∨
        d.exists_ (privateFile vault (numberedName (datedName name now) m)) = true) ∧
    (0 ≤ now.date.year ∧ now.date.year ≤ 9999 →
      now.dateStamp.toList.length = 8 ∧ natOfDigits? 10 now.dateStamp.toList =
        some (now.date.year.toNat * 10000 + now.date.month * 100 + now.date.dayOfMonth)) := by
  have finds : Finds (isTaken inv d vault) (datedName name now) 1 (rotationName inv d vault name now) :=
    finds_of_tries (by omega)
  obtain ⟨i, is, free, before⟩ := finds.exists_free
  have notTaken := free
  rw [← is, ← Bool.not_eq_true, isTaken_iff, not_or, Bool.not_eq_true] at notTaken
  refine ⟨?_, ?_, notTaken.1, notTaken.2, ⟨1 + i, by omega, ?_, ?_, ?_⟩, dateStamp_digits⟩
  · intro found
    constructor
    · intro finds'
      exact finds'.unique finds
    · rintro rfl
      exact finds
  · intro tries many
    exact (finds_of_tries many).unique finds
  · obtain ⟨j, below, isFree⟩ := exists_free_name inv d vault name now
    have le : i ≤ j := by
      by_contra later
      rw [before j (by omega)] at isFree
      cases isFree
    omega
  · rw [is, numberedName]
    by_cases first : 1 + i ≤ 1
    · rw [if_pos first, if_pos (by omega)]
    · rw [if_neg first, if_neg (by omega)]
      rfl
  · intro m one below
    have taken := before (m - 1) (by omega)
    rwa [show 1 + (m - 1) = m by omega, isTaken_iff] at taken

/-- A vault where a file that no key is recorded for has the first name that is tried. -/
def strayDisk : Disk :=
  let entries := [(["v"], .directory 0o700), (["v", "keys"], .directory 0o700),
    (["v", "keys", "work-19700101"], .file (.text "") 0o600 ⟨0, 0⟩)]
  ⟨entries, [], ⟨0, 0⟩⟩

theorem rotationName_found_of_strayDisk :
    Finds (isTaken .empty strayDisk "/v") (datedName "work" ⟨0, 0⟩) 1 "work-19700101-2" ∧
      natOfDigits? 10 (Instant.mk 0 0).dateStamp.toList = some 19700101 := by
  have name : rotationName .empty strayDisk "/v" "work" ⟨0, 0⟩ = "work-19700101-2" := by decide +kernel
  have year : 0 ≤ (Instant.mk 0 0).date.year ∧ (Instant.mk 0 0).date.year ≤ 9999 := by decide
  obtain ⟨finds, -, -, -, -, date⟩ := rotationName_found .empty strayDisk "/v" "work" ⟨0, 0⟩
  exact ⟨(finds _).mpr name.symm, (date year).2⟩

end Keyring.Lifecycle

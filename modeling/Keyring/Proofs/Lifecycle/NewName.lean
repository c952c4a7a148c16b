import Keyring.Lifecycle.Rotate
import Keyring.Proofs.Disk.Place
import Keyring.Proofs.Inventory.Consistency
import Keyring.Proofs.Lifecycle.Directory
import Keyring.Proofs.Path.Parent
import Keyring.Proofs.Text.Numeral
import Mathlib.Data.List.Perm.Subperm
import Mathlib.Data.List.Nodup

/-!
# The name of the new key

A key that follows another without a name of its own is named for the old key and the
date, with a number where that name is taken. The search for a free one always ends
(`rotationName_spec`): different names are taken by different keys or by different
entries of one directory, and more names are tried than there are of both.
-/

namespace Keyring

namespace Name

theorem isAlphanumeric_of_isDigit {c : Char} (digit : Text.isDigit c = true) : isAlphanumeric c = true := by
  have range : ('0' ≤ c) ∧ c ≤ '9' := by simpa [Text.isDigit] using digit
  simp [isAlphanumeric, range]

theorem isNameChar_of_isAlphanumeric {c : Char} (alphanumeric : isAlphanumeric c = true) :
    isNameChar c = true := by
  simp [isNameChar, alphanumeric]

end Name

/-! ## Endings -/

namespace Lifecycle

open Disk Name Text Time

/-- What may be put after the last name of a path so that it stays a name there. -/
structure IsTail (tail : String) : Prop where
  noSlash : '/' ∉ tail.toList
  last : tail.toList.getLast?.any isAlphanumeric = true

/-- What may be put after a name of a key: characters of names, with a small letter or digit last. -/
structure IsEnding (tail : String) : Prop where
  plain : ∀ c ∈ tail.toList, isNameChar c = true
  last : tail.toList.getLast?.any isAlphanumeric = true

theorem IsEnding.isTail {tail : String} (ending : IsEnding tail) : IsTail tail := by
  refine ⟨?_, ending.last⟩
  intro slash
  have isPlain := ending.plain _ slash
  revert isPlain
  decide

theorem IsTail.some {tail : String} (isTail : IsTail tail) : tail.toList ≠ [] := by
  intro nothing
  have last := isTail.last
  rw [nothing] at last
  cases last

theorem IsTail.append {front back : String} (noSlash : '/' ∉ front.toList) (isTail : IsTail back) :
    IsTail (front ++ back) := by
  constructor
  · intro slash
    rw [String.toList_append] at slash
    exact (List.mem_append.mp slash).elim noSlash isTail.noSlash
  · rw [String.toList_append, List.getLast?_append_of_ne_nil _ isTail.some]
    exact isTail.last

/-- What has a tail names an entry of its own, and none of `.` and `..`. -/
theorem IsTail.notVoid {tail : String} (isTail : IsTail tail) (front : String) :
    ¬(front ++ tail = "" ∨ front ++ tail = ".") ∧ front ++ tail ≠ ".." := by
  have ends : (front ++ tail).toList.getLast?.any isAlphanumeric = true := by
    rw [String.toList_append, List.getLast?_append_of_ne_nil _ isTail.some]
    exact isTail.last
  refine ⟨?_, ?_⟩
  · rintro (is | is)
    · rw [is] at ends
      exact absurd ends (by decide)
    · rw [is] at ends
      exact absurd ends (by decide)
  · intro is
    rw [is] at ends
    exact absurd ends (by decide)

theorem IsEnding.after {front back : String} (ending : IsEnding back)
    (plain : ∀ c ∈ front.toList, isNameChar c = true) : IsEnding (front ++ back) := by
  constructor
  · intro c member
    rw [String.toList_append] at member
    rcases List.mem_append.mp member with inFront | inBack
    · exact plain c inFront
    · exact ending.plain c inBack
  · rw [String.toList_append, List.getLast?_append_of_ne_nil _ ending.isTail.some]
    exact ending.last

/-- A name with an ending is a name unless it gets too long. -/
theorem IsEnding.isName_append {name tail : String} (isName : Name.isName name = true)
    (ending : IsEnding tail) :
    Name.isName (name ++ tail) = true ↔ utf8Length (name ++ tail) ≤ maxLength := by
  obtain ⟨-, plain, starts, -⟩ := isName_iff.mp isName
  constructor
  · intro whole
    exact (isName_iff.mp whole).1
  · intro short
    refine isName_iff.mpr ⟨short, ?_, ?_, ?_⟩
    · intro c member
      rw [String.toList_append] at member
      rcases List.mem_append.mp member with inName | inTail
      · exact plain c inName
      · exact ending.plain c inTail
    · rw [String.toList_append, List.head?_append]
      cases first : name.toList.head? with
      | none =>
        rw [first] at starts
        cases starts
      | some c =>
        rw [first] at starts
        exact starts
    · rw [String.toList_append, List.getLast?_append_of_ne_nil _ ending.isTail.some]
      exact ending.last

/-- The number that the `n`-th name to try ends with; the first has none. -/
def numbering (n : Nat) : String := if n ≤ 1 then "" else "-" ++ toString n

theorem numberedName_eq (base : String) (n : Nat) : numberedName base n = base ++ numbering n := by
  unfold numberedName numbering
  split
  · exact String.append_empty.symm
  · show base ++ "-" ++ toString n = base ++ ("-" ++ toString n)
    exact String.append_assoc

theorem last_of_decimal (front : List Char) (width n : Nat) :
    (String.ofList (front ++ decimalPadded width n)).toList.getLast?.any isAlphanumeric = true := by
  have some := decimalPadded_ne_nil width n
  rw [String.toList_ofList, List.getLast?_append_of_ne_nil _ some, List.getLast?_eq_some_getLast some]
  exact isAlphanumeric_of_isDigit (isDigit_of_mem_decimalPadded (List.getLast_mem some))

theorem isEnding_of_decimal {front : List Char} (plain : ∀ c ∈ front, isNameChar c = true) {width n : Nat} :
    IsEnding (String.ofList (front ++ decimalPadded width n)) := by
  constructor
  · intro c member
    rw [String.toList_ofList] at member
    rcases List.mem_append.mp member with inFront | digit
    · exact plain c inFront
    · exact isNameChar_of_isAlphanumeric (isAlphanumeric_of_isDigit (isDigit_of_mem_decimalPadded digit))
  · exact last_of_decimal front width n

theorem numbering_eq_empty_or (n : Nat) : numbering n = "" ∨ IsEnding (numbering n) := by
  unfold numbering
  split
  · exact .inl rfl
  · right
    have whole : "-" ++ toString n = String.ofList (['-'] ++ decimalPadded 0 n) := by
      rw [← String.toList_inj, String.toList_append, toList_toString, String.toList_ofList]
      simp [decimalPadded, zeroPadded]
    rw [whole]
    exact isEnding_of_decimal (List.forall_mem_singleton.mpr rfl)

theorem IsEnding.numbered {tail : String} (ending : IsEnding tail) (n : Nat) :
    IsEnding (tail ++ numbering n) := by
  rcases numbering_eq_empty_or n with none | numbered
  · rw [none, String.append_empty]
    exact ending
  · exact numbered.after ending.plain

theorem numbering_inj {m n : Nat} (mOne : 1 ≤ m) (nOne : 1 ≤ n) (same : numbering m = numbering n) : m = n := by
  unfold numbering at same
  have dash {k : Nat} : "-" ++ toString k ≠ "" := by
    intro empty
    simpa using congrArg String.toList empty
  split at same
  · split at same
    · omega
    · exact absurd same.symm dash
  · split at same
    · exact absurd same dash
    · have digits := congrArg String.toList same
      rw [String.toList_append, String.toList_append, List.append_cancel_left_eq, toList_toString,
        toList_toString] at digits
      exact decimal_inj digits

theorem numberedName_inj {base : String} {m n : Nat} (mOne : 1 ≤ m) (nOne : 1 ≤ n)
    (same : numberedName base m = numberedName base n) : m = n := by
  rw [numberedName_eq, numberedName_eq] at same
  have tails := congrArg String.toList same
  rw [String.toList_append, String.toList_append, List.append_cancel_left_eq, String.toList_inj] at tails
  exact numbering_inj mOne nOne tails

/-- What is found when the names are tried one after the other from the `n`-th on, without a limit. -/
inductive Finds (taken : String → Bool) (base : String) : Nat → String → Prop where
  | here {n : Nat} (free : taken (numberedName base n) = false) : Finds taken base n (numberedName base n)
  | next {n : Nat} {found : String} (isTaken : taken (numberedName base n) = true)
      (later : Finds taken base (n + 1) found) : Finds taken base n found

variable {taken : String → Bool} {base found : String} {fuel n : Nat}

theorem Finds.exists_free (finds : Finds taken base n found) :
    ∃ i, found = numberedName base (n + i) ∧ taken (numberedName base (n + i)) = false ∧
      ∀ j < i, taken (numberedName base (n + j)) = true := by
  induction finds with
  | here free => exact ⟨0, rfl, free, by omega⟩
  | @next n found isTaken _ ih =>
    obtain ⟨i, is, free, before⟩ := ih
    have shift (j : Nat) : n + 1 + j = n + (j + 1) := by omega
    rw [shift] at is free
    refine ⟨i + 1, is, free, ?_⟩
    intro j below
    cases j with
    | zero => exact isTaken
    | succ j =>
      rw [← shift]
      exact before j (by omega)

/-- Within so many tries the same is found as without a limit, where a free name is among them. -/
theorem finds_firstFree (free : ∃ i < fuel, taken (numberedName base (n + i)) = false) :
    Finds taken base n (firstFree taken base fuel n) := by
  induction fuel generalizing n with
  | zero =>
    obtain ⟨i, below, -⟩ := free
    omega
  | succ fuel ih =>
    rw [firstFree]
    by_cases first : taken (numberedName base n) = true
    · rw [if_pos first]
      obtain ⟨i, below, isFree⟩ := free
      refine .next first (ih ?_)
      cases i with
      | zero =>
        rw [Nat.add_zero, first] at isFree
        cases isFree
      | succ i =>
        refine ⟨i, by omega, ?_⟩
        rw [Nat.add_assoc, Nat.add_comm 1 i]
        exact isFree
    · rw [if_neg first]
      exact .here (by simpa using first)

theorem exists_free {names : List String} {tries : Nat} (few : names.length < tries)
    (listed : ∀ n, taken (numberedName base n) = true → numberedName base n ∈ names) :
    ∃ i < tries, taken (numberedName base (1 + i)) = false := by
  by_contra none
  have all : ∀ i < tries, taken (numberedName base (1 + i)) = true := by
    intro i below
    by_contra isFree
    exact none ⟨i, below, by simpa using isFree⟩
  let tried := (List.range tries).map fun i => numberedName base (1 + i)
  have distinct : tried.Nodup := by
    refine List.nodup_range.map ?_
    intro i j same
    have numbers := numberedName_inj (by omega) (by omega) same
    omega
  have inside : tried ⊆ names := by
    intro name member
    obtain ⟨i, below, rfl⟩ := List.mem_map.mp member
    exact listed _ (all i (List.mem_range.mp below))
  have bound := (distinct.subperm inside).length_le
  simp only [tried, List.length_map, List.length_range] at bound
  omega

end Lifecycle

/-! ## Names that files take -/

namespace Path

open Text

theorem join_append {base : String} (some : base ≠ "") (p : Path) (tail : String) :
    join p (base ++ tail) = join p base ++ tail := by
  unfold join
  rw [isAbsolute_append some]
  split
  · rfl
  · split
    · exact String.append_assoc.symm
    · simp only [String.append_assoc]

/-- What is put after a path goes to its last name. -/
theorem names_append {p : Path} {front : List String} {last tail : String}
    (named : names p = front ++ [last]) (plain : '/' ∉ tail.toList) :
    names (p ++ tail) = front ++ [last ++ tail] := by
  have segmentOf : ∀ name ∈ front ++ [last], '/' ∉ name.toList := by
    intro name member
    exact (mem_of_mem_names (named ▸ member)).1
  have rest : ∀ segment ∈ front.map String.toList ++ [last.toList ++ tail.toList],
      ∀ c ∈ segment, decide (c = '/') = false := by
    intro segment member c inside
    rw [decide_eq_false_iff_not]
    rintro rfl
    rcases List.mem_append.mp member with inFront | isLast
    · obtain ⟨name, isName, rfl⟩ := List.mem_map.mp inFront
      exact segmentOf name (List.mem_append_left _ isName) inside
    · rw [List.mem_singleton.mp isLast] at inside
      rcases List.mem_append.mp inside with inLast | inTail
      · exact segmentOf last (by simp) inLast
      · exact plain inTail
  have whole : p.toList = joined (front.map String.toList ++ [last.toList]) := by
    have texts := congrArg (List.map String.toList) named
    simp only [names, List.map_map, Function.comp_def, String.toList_ofList, List.map_id', List.map_append,
      List.map_cons, List.map_nil] at texts
    rw [← texts, segments, joined_pieces]
  have extended : (p ++ tail).toList = joined (front.map String.toList ++ [last.toList ++ tail.toList]) := by
    rw [String.toList_append, whole]
    rcases front with _ | ⟨first, front⟩
    · simp only [List.map_nil, List.nil_append, joined_single]
    · rw [joined_append (by simp) (by simp), joined_append (by simp) (by simp), joined_single, joined_single,
        List.append_assoc, List.cons_append]
  rw [names, segments, extended, pieces_joined (by simp) rest]
  simp [String.ofList_append, Function.comp_def]

end Path

namespace Disk

variable {d : Disk} {links left : Nat} {at_ goal : Place} {name : String}

/-- A name that leads through to an entry is that of an entry itself, if only of a link. -/
theorem Leads.exists_entry {e : Entry} (leads : Leads d true links at_ [name] left goal)
    (notVoid : ¬(name = "" ∨ name = ".")) (notUp : name ≠ "..") (found : d.entryAt goal = some e) :
    ∃ e', d.entryAt (at_ ++ [name]) = some e' := by
  cases leads with
  | void _ void => exact absurd void notVoid
  | up => exact absurd rfl notUp
  | down _ _ _ rest =>
    cases rest
    exact ⟨e, found⟩
  | halt _ _ _ stops => cases stops
  | follow _ _ link => exact ⟨_, link⟩

end Disk

namespace Lifecycle

open Disk Inventory Layout Name Text Time

/-- Where a file of the vault is there, the tail of its name ends the name of an entry. -/
theorem exists_entry_of_exists {d : Disk} {base : String} (some : base ≠ "") (vault : Path) :
    ∃ last : String, ∀ tail, IsTail tail → d.exists_ (privateFile vault (base ++ tail)) = true →
      ∃ at_ e, (at_ ++ [last ++ tail], e) ∈ d.entries := by
  obtain ⟨front, last, named⟩ : ∃ front last, Path.names (privateFile vault base) = front ++ [last] :=
    ⟨_, _, (List.dropLast_concat_getLast (Path.names_ne_nil _)).symm⟩
  refine ⟨last, ?_⟩
  intro tail isTail there
  obtain ⟨goal, e, led, found⟩ := exists_iff.mp there
  have path : privateFile vault (base ++ tail) = privateFile vault base ++ tail :=
    Path.join_append some _ tail
  obtain ⟨-, left, leads⟩ := place_eq_ok_iff.mp led
  rw [path, Path.names_append named isTail.noSlash] at leads
  obtain ⟨_, at_, -, final⟩ := (leads_append_iff (by simp)).mp leads
  obtain ⟨e', entry⟩ := final.exists_entry (isTail.notVoid last).1 (isTail.notVoid last).2 found
  rw [entryAt, if_neg (by simp)] at entry
  exact ⟨at_, e', mem_of_lookup entry⟩

theorem noSlash_decimalPadded (width n : Nat) : '/' ∉ decimalPadded width n := by
  intro slash
  have digit := isDigit_of_mem_decimalPadded slash
  revert digit
  decide

theorem isNameChar_decimalPadded {width n : Nat} : ∀ c ∈ decimalPadded width n, isNameChar c = true := by
  intro c member
  exact isNameChar_of_isAlphanumeric (isAlphanumeric_of_isDigit (isDigit_of_mem_decimalPadded member))

theorem noSlash_yearText (y : Int) : '/' ∉ yearText y := by
  unfold yearText
  split
  · exact noSlash_decimalPadded _ _
  · intro slash
    rcases List.mem_cons.mp slash with sign | digit
    · split at sign
      · revert sign
        decide
      · revert sign
        decide
    · exact noSlash_decimalPadded _ _ digit

theorem isTail_dateStamp (now : Instant) : IsTail now.dateStamp := by
  unfold Instant.dateStamp Date.text
  constructor
  · intro slash
    simp only [String.toList_ofList, List.append_nil] at slash
    rcases List.mem_append.mp slash with inFront | inDay
    · exact (List.mem_append.mp inFront).elim (noSlash_yearText _) (noSlash_decimalPadded _ _)
    · exact noSlash_decimalPadded _ _ inDay
  · exact last_of_decimal _ _ _

theorem isEnding_dateStamp {now : Instant} (year : 0 ≤ now.date.year ∧ now.date.year ≤ 9999) :
    IsEnding now.dateStamp := by
  unfold Instant.dateStamp Date.text
  refine isEnding_of_decimal fun c member => ?_
  rw [yearText, if_pos year] at member
  simp only [List.append_nil] at member
  rcases List.mem_append.mp member with inYear | inMonth
  · exact isNameChar_decimalPadded c inYear
  · exact isNameChar_decimalPadded c inMonth

/-- A key or an entry of the disk stands for each name that is taken. -/
theorem exists_names (inv : Inventory) (d : Disk) (vault : Path) (name : String) (now : Instant) :
    ∃ names : List String, names.length = inv.keys.length + d.entries.length ∧
      ∀ n, isTaken inv d vault (numberedName (name ++ "-" ++ now.dateStamp) n) = true →
        numberedName (name ++ "-" ++ now.dateStamp) n ∈ names := by
  have some : name ++ "-" ≠ "" := by
    intro empty
    simpa using congrArg String.toList empty
  obtain ⟨last, entryOf⟩ := exists_entry_of_exists (d := d) some vault
  let nameOf (place : Place) : String :=
    name ++ "-" ++ String.ofList ((place.getLastD "").toList.drop last.toList.length)
  refine ⟨inv.keyNames ++ d.entries.map fun entry => nameOf entry.1, ?_, ?_⟩
  · rw [List.length_append, List.length_map, Inventory.keyNames, List.length_map]
  intro n taken
  rw [List.mem_append]
  rcases (Bool.or_eq_true _ _).mp taken with isKey | there
  · left
    by_contra free
    rw [findKey?_eq_none_iff.mpr free] at isKey
    cases isKey
  · right
    have isTail : IsTail (now.dateStamp ++ numbering n) := by
      rcases numbering_eq_empty_or n with none | ending
      · rw [none, String.append_empty]
        exact isTail_dateStamp now
      · exact ending.isTail.append (isTail_dateStamp now).noSlash
    have split : numberedName (name ++ "-" ++ now.dateStamp) n =
        name ++ "-" ++ (now.dateStamp ++ numbering n) := by
      rw [numberedName_eq, String.append_assoc]
    rw [split] at there ⊢
    obtain ⟨at_, e, entry⟩ := entryOf _ isTail there
    refine List.mem_map.mpr ⟨_, entry, ?_⟩
    simp [nameOf]

/-- The search finds the first of the names that is not taken. -/
theorem rotationName_spec (inv : Inventory) (d : Disk) (vault : Path) (name : String) (now : Instant) :
    ∃ n, 1 ≤ n ∧ rotationName inv d vault name now = numberedName (name ++ "-" ++ now.dateStamp) n ∧
      isTaken inv d vault (numberedName (name ++ "-" ++ now.dateStamp) n) = false ∧
      ∀ m, 1 ≤ m → m < n → isTaken inv d vault (numberedName (name ++ "-" ++ now.dateStamp) m) = true := by
  obtain ⟨names, many, listed⟩ := exists_names inv d vault name now
  have few : names.length < inv.keys.length + d.entries.length + 2 := by omega
  obtain ⟨i, found, isFree, before⟩ := (finds_firstFree (exists_free few listed)).exists_free
  refine ⟨1 + i, by omega, found, isFree, ?_⟩
  intro m one below
  have earlier := before (m - 1) (by omega)
  rwa [show 1 + (m - 1) = m by omega] at earlier

end Lifecycle

end Keyring

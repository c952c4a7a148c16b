import Keyring.Document.Json
import Keyring.Document.JsonText
import Keyring.Proofs.Text.Numeral
import Mathlib.Data.List.Forall2

/-!
# JSON there and back

What is written as JSON reads back as the data that it was, texts of any
characters included.
-/

namespace Keyring.Json

open Text

variable {cs rest : List Char} {fuel n : Nat}

/-! ## Strings -/

attribute [local simp] pieces?

/-- What a character is read as: itself, or the unit of a control character. -/
def Piece.StandsFor (c : Char) : Piece → Prop
  | .char d => d = c
  | .unit n => n = c.toNat ∧ n < 32

/-- Control characters are spelled in four digits. -/
theorem unit?_hexPadded (low : n < 32) (rest : List Char) :
    unit? (hexPadded 4 n ++ rest) = some (n, rest) := by
  have digits : ∀ m < 32, ∃ a b c d, hexPadded 4 m = [a, b, c, d] ∧ natOfDigits? 16 [a, b, c, d] = some m := by
    have spelled : ∀ m < 32, natOfDigits? 16 ((hexPadded 4 m).take 4) = some m ∧ (hexPadded 4 m).length = 4 := by
      decide
    intro m small
    obtain ⟨value, four⟩ := spelled m small
    match found : hexPadded 4 m, four with
    | [a, b, c, d], _ => exact ⟨a, b, c, d, rfl, by simpa [found] using value⟩
  obtain ⟨a, b, c, d, found, value⟩ := digits n low
  rw [found, List.cons_append, List.cons_append, List.cons_append, List.cons_append, List.nil_append,
    unit?, value]
  rfl

theorem pieces?_char {c : Char} (quote : c ≠ '"') (backslash : c ≠ '\\') (high : ¬c.toNat < 32) :
    pieces? (fuel + 1) (c :: rest) =
      (pieces? fuel rest).map fun read => (.char c :: read.1, read.2) := by
  rcases found : pieces? fuel rest with _ | ⟨ps, after⟩ <;>
    simp [backslash, high, found]

theorem pieces?_escape {c d : Char} (other : d ≠ 'u') (escape : escapeOf? d = some c) :
    pieces? (fuel + 1) ('\\' :: d :: rest) =
      (pieces? fuel rest).map fun read => (.char c :: read.1, read.2) := by
  rcases found : pieces? fuel rest with _ | ⟨ps, after⟩ <;>
    simp [escape, found]

theorem pieces?_unit (low : n < 32) :
    pieces? (fuel + 1) ('\\' :: 'u' :: hexPadded 4 n ++ rest) =
      (pieces? fuel rest).map fun read => (.unit n :: read.1, read.2) := by
  rw [List.cons_append, List.cons_append, pieces?, unit?_hexPadded low]
  rcases found : pieces? fuel rest with _ | ⟨ps, after⟩ <;> simp [found]

theorem exists_pieces?_escaped (c : Char) : ∃ p : Piece, p.StandsFor c ∧ ∀ fuel rest,
    pieces? (fuel + 1) (escaped c ++ rest) = (pieces? fuel rest).map fun read => (p :: read.1, read.2) := by
  unfold escaped
  split
  case h_8 quote backslash _ _ _ _ _ =>
    split
    · rename_i low
      exact ⟨.unit c.toNat, ⟨rfl, low⟩, fun _ _ => pieces?_unit low⟩
    · rename_i high
      exact ⟨.char c, rfl, fun _ _ => pieces?_char quote backslash high⟩
  all_goals exact ⟨.char _, rfl, fun _ _ => pieces?_escape (by decide) rfl⟩

theorem exists_pieces?_quoted (enough : cs.length < fuel) (rest : List Char) :
    ∃ ps, List.Forall₂ Piece.StandsFor cs ps ∧
      pieces? fuel (cs.flatMap escaped ++ '"' :: rest) = some (ps, rest) := by
  induction cs generalizing fuel with
  | nil =>
    obtain ⟨fuel, rfl⟩ : ∃ more, fuel = more + 1 := ⟨fuel - 1, by omega⟩
    exact ⟨[], .nil, by simp⟩
  | cons c cs ih =>
    obtain ⟨fuel, rfl⟩ : ∃ more, fuel = more + 1 := ⟨fuel - 1, by omega⟩
    obtain ⟨p, first, step⟩ := exists_pieces?_escaped c
    obtain ⟨ps, more, read⟩ := @ih fuel (by simpa using enough)
    refine ⟨p :: ps, .cons first more, ?_⟩
    rw [List.flatMap_cons, List.append_assoc, step, read]
    rfl

theorem joinPieces?_unit (low : n < 32) (ps : List Piece) :
    joinPieces? (.unit n :: ps) = (joinPieces? ps).map (Char.ofNat n :: ·) := by
  have notHigh : isHighHalf n = false := by simp [isHighHalf]; omega
  have notLow : isLowHalf n = false := by simp [isLowHalf]; omega
  rcases ps with _ | ⟨_ | m, ps⟩ <;> simp [joinPieces?, notHigh, notLow]

theorem joinPieces?_of_standsFor {ps : List Piece} (stand : List.Forall₂ Piece.StandsFor cs ps) :
    joinPieces? ps = some cs := by
  induction stand with
  | nil => rfl
  | @cons c p cs ps first _ ih =>
    cases p with
    | char d =>
      obtain rfl : d = c := first
      rw [joinPieces?, ih]
      rfl
    | unit n =>
      obtain ⟨rfl, low⟩ := first
      rw [joinPieces?_unit low, ih, Option.map_some, Char.ofNat_toNat]

theorem length_le_length_flatMap_escaped (cs : List Char) : cs.length ≤ (cs.flatMap escaped).length := by
  induction cs with
  | nil => exact Nat.le_refl 0
  | cons c cs ih =>
    have one : 1 ≤ (escaped c).length := by
      unfold escaped
      split
      case h_8 => split <;> simp
      all_goals decide
    rw [List.flatMap_cons, List.length_append, List.length_cons]
    omega

theorem string?_quoted (s : String) (enough : s.toList.length < fuel) (rest : List Char) :
    string? fuel (s.toList.flatMap escaped ++ '"' :: rest) = some (some s, rest) := by
  obtain ⟨ps, stand, read⟩ := exists_pieces?_quoted enough rest
  simp [string?, read, joinPieces?_of_standsFor stand]

/-- What follows a value in a text of many lines. -/
def Stops (rest : List Char) : Prop := ∃ c more, rest = c :: more ∧ (c = ',' ∨ c = '\n')

theorem wholeDigits?_decimal (n : Nat) (stops : Stops rest) :
    wholeDigits? (decimal n ++ rest) = some (decimal n, rest) := by
  have digits : ∀ d ∈ decimal n, isDigit d = true := fun d => isDigit_of_mem_decimal
  rcases Nat.eq_zero_or_pos n with rfl | positive
  · have zero : decimal 0 = ['0'] := rfl
    obtain ⟨c, more, rfl, rfl | rfl⟩ := stops <;> simp [zero, wholeDigits?, isDigit]
  · obtain ⟨d, ds, shape⟩ := List.exists_cons_of_ne_nil (@Nat.toDigits_ne_nil n 10)
    have notZero : d ≠ '0' := by
      have := head_decimal positive
      rw [decimal, shape] at this
      simpa using this
    have taken : (decimal n ++ rest).takeWhile isDigit = decimal n := by
      rw [List.takeWhile_append_of_pos digits]
      obtain ⟨c, more, rfl, rfl | rfl⟩ := stops <;> simp [isDigit]
    have dropped : (decimal n ++ rest).dropWhile isDigit = rest := by
      rw [List.dropWhile_append_of_pos digits]
      obtain ⟨c, more, rfl, rfl | rfl⟩ := stops <;> simp [isDigit]
    rw [wholeDigits?.eq_def]
    split
    · rename_i same
      rw [decimal, shape] at same
      exact absurd (List.cons.inj same).1 notZero
    · rw [taken, dropped]
      exact if_neg Nat.toDigits_ne_nil

theorem number?_decimal {negative : Bool} (n : Nat) (nonzero : negative = true → n ≠ 0) (stops : Stops rest) :
    number? negative (decimal n ++ rest) =
      some (.number (if negative then -(n : Int) else n), rest) := by
  have fraction : skipFraction? rest = some (false, rest) := by
    obtain ⟨c, more, rfl, rfl | rfl⟩ := stops <;> simp [skipFraction?]
  have exponent : skipExponent? rest = some (false, rest) := by
    obtain ⟨c, more, rfl, rfl | rfl⟩ := stops <;> simp [skipExponent?]
  simpa [number?, wholeDigits?_decimal n stops, natOfDigits?_decimal, fraction, exponent] using nonzero

theorem skipSpaces_newLine (depth : Nat) (cs : List Char) :
    skipSpaces (newLine depth ++ cs) = skipSpaces cs := by
  have blank : ∀ c ∈ newLine depth, isSpace c = true := by
    intro c member
    rcases List.mem_cons.mp member with rfl | space
    · rfl
    · rw [List.eq_of_mem_replicate space]
      rfl
  exact List.dropWhile_append_of_pos blank

theorem skipSpaces_cons {c : Char} (solid : isSpace c = false) (cs : List Char) :
    skipSpaces (c :: cs) = c :: cs := by
  rw [skipSpaces, List.dropWhile_cons_of_neg (by simp [solid])]

theorem value?_newLine (depth : Nat) (cs : List Char) : value? fuel (newLine depth ++ cs) = value? fuel cs := by
  cases fuel with
  | zero => rfl
  | succ fuel => rw [value?, value?, skipSpaces_newLine]

theorem items?_newLine (depth : Nat) (cs : List Char) : items? fuel (newLine depth ++ cs) = items? fuel cs := by
  cases fuel with
  | zero => rfl
  | succ fuel => rw [items?, items?, value?_newLine]

theorem fields?_newLine (depth : Nat) (cs : List Char) : fields? fuel (newLine depth ++ cs) = fields? fuel cs := by
  cases fuel with
  | zero => rfl
  | succ fuel => rw [fields?, fields?, skipSpaces_newLine]

theorem value?_space (cs : List Char) : value? fuel (' ' :: cs) = value? fuel cs := by
  cases fuel with
  | zero => rfl
  | succ fuel => rw [value?, value?]; rfl

/-- What a value starts with. -/
def Opens (cs : List Char) : Prop := ∃ c more, cs = c :: more ∧ isSpace c = false ∧ c ≠ ']' ∧ c ≠ '}'

theorem isSpace_of_isDigit {c : Char} (digit : isDigit c = true) : isSpace c = false := by
  simp only [isSpace, Bool.or_eq_false_iff, decide_eq_false_iff_not]
  refine ⟨⟨⟨?_, ?_⟩, ?_⟩, ?_⟩ <;> (rintro rfl; cases digit)

theorem opens_integer (n : Int) : Opens (integer n) := by
  rw [integer]
  split
  · exact ⟨_, _, rfl, rfl, by decide, by decide⟩
  · obtain ⟨c, more, shape, digit⟩ := exists_decimal_eq_cons n.natAbs
    refine ⟨c, more, shape, isSpace_of_isDigit digit, ?_, ?_⟩ <;> (rintro rfl; cases digit)

theorem opens_pretty (depth : Nat) (d : Data) : Opens (pretty depth d) := by
  cases d with
  | number n => exact opens_integer n
  | flag b => cases b <;> exact ⟨_, _, rfl, rfl, by decide, by decide⟩
  | list items => cases items <;> (rw [pretty]; exact ⟨_, _, rfl, rfl, by decide, by decide⟩)
  | record fields =>
    rcases fields with _ | ⟨⟨name, d⟩, rest⟩ <;> (rw [pretty]; exact ⟨_, _, rfl, rfl, by decide, by decide⟩)
  | text s => exact ⟨_, _, rfl, rfl, by decide, by decide⟩
  | null => exact ⟨_, _, rfl, rfl, by decide, by decide⟩
  | unreadable => exact ⟨_, _, rfl, rfl, by decide, by decide⟩

theorem value?_integer (n : Int) (stops : Stops rest) :
    value? (fuel + 1) (integer n ++ rest) = some (.number n, rest) := by
  rw [integer]
  split
  · rename_i negative
    have read := @number?_decimal rest true n.natAbs (by omega) stops
    rw [if_pos rfl, show -(n.natAbs : Int) = n by omega] at read
    rw [List.cons_append, value?, skipSpaces_cons rfl]
    exact read
  · rename_i positive
    have read := @number?_decimal rest false n.natAbs (by simp) stops
    rw [if_neg (by simp), show (n.natAbs : Int) = n by omega] at read
    obtain ⟨c, more, shape, digit⟩ := exists_decimal_eq_cons n.natAbs
    rw [shape, List.cons_append] at read ⊢
    rw [value?, skipSpaces_cons (isSpace_of_isDigit digit)]
    split
    case h_8 => exact read
    all_goals
      rename_i same
      rw [(List.cons.inj same).1] at digit
      cases digit

/-! ## Lists and records -/

mutual

/-- Data without anything unreadable in it. -/
def IsWritable : Data → Prop
  | .unreadable => False
  | .list items => AreWritable items
  | .record fields => HaveWritable fields
  | _ => True

def AreWritable : List Data → Prop
  | [] => True
  | d :: rest => IsWritable d ∧ AreWritable rest

def HaveWritable : List (String × Data) → Prop
  | [] => True
  | (_, d) :: rest => IsWritable d ∧ HaveWritable rest

end

/-- The items of a list from the first one on. -/
def itemsText (depth : Nat) : List Data → List Char
  | [] => []
  | d :: rest => pretty depth d ++ prettyItems depth rest

/-- The fields of a record from the first one on. -/
def fieldsText (depth : Nat) : List (String × Data) → List Char
  | [] => []
  | (name, d) :: rest => quoted name ++ ':' :: ' ' :: pretty depth d ++ prettyFields depth rest

theorem stops_newLine (depth : Nat) (cs : List Char) : Stops (newLine depth ++ cs) := ⟨_, _, rfl, .inr rfl⟩

theorem recordOf_map (fields : List (String × Data)) :
    recordOf (fields.map fun f => (some f.1, f.2)) = .record fields := by
  have named : (fields.map fun f => (some f.1, f.2)).mapM (fun x : Option String × Data => x.1.map (·, x.2)) =
      some fields := by
    induction fields with
    | nil => rfl
    | cons f fields ih => simp [ih]
  simp only [recordOf]
  rw [named]

/-! One step of reading, by the mark that comes next. -/

theorem value?_list {c : Char} {items : List Data} {cs after : List Char}
    (start : skipSpaces rest = c :: cs) (some_ : c ≠ ']') (read : items? fuel (c :: cs) = some (items, after)) :
    value? (fuel + 1) ('[' :: rest) = some (.list items, after) := by
  rw [value?, skipSpaces_cons rfl]
  simp only [start]
  split
  · rename_i same
    exact absurd (List.cons.inj same).1 some_
  · rw [read]
    rfl

theorem value?_record {c : Char} {fields : List (String × Data)} {cs after : List Char}
    (start : skipSpaces rest = c :: cs) (some_ : c ≠ '}')
    (read : fields? fuel (c :: cs) = some (fields.map fun f => (some f.1, f.2), after)) :
    value? (fuel + 1) ('{' :: rest) = some (.record fields, after) := by
  rw [value?, skipSpaces_cons rfl]
  simp only [start]
  split
  · rename_i same
    exact absurd (List.cons.inj same).1 some_
  · rw [read, Option.map_some, recordOf_map]

theorem items?_comma {d : Data} {cs : List Char} (read : value? fuel cs = some (d, ',' :: rest)) :
    items? (fuel + 1) cs = (items? fuel rest).map fun more => (d :: more.1, more.2) := by
  rcases next : items? fuel rest with _ | ⟨more, after⟩ <;>
    simp [items?, read, skipSpaces_cons (show isSpace ',' = false from rfl), next]

theorem items?_last {d : Data} {cs after : List Char} (read : value? fuel cs = some (d, rest))
    (ends : skipSpaces rest = ']' :: after) : items? (fuel + 1) cs = some ([d], after) := by
  simp [items?, read, ends]

theorem fields?_comma {name : Option String} {d : Data} {cs tail : List Char}
    (named : string? (fuel + 1) cs = some (name, ':' :: tail)) (read : value? fuel tail = some (d, ',' :: rest)) :
    fields? (fuel + 1) ('"' :: cs) = (fields? fuel rest).map fun more => ((name, d) :: more.1, more.2) := by
  rcases next : fields? fuel rest with _ | ⟨more, after⟩ <;>
    simp [fields?, skipSpaces_cons (show isSpace '"' = false from rfl), named,
      skipSpaces_cons (show isSpace ':' = false from rfl), read,
      skipSpaces_cons (show isSpace ',' = false from rfl), next]

theorem fields?_last {name : Option String} {d : Data} {cs tail after : List Char}
    (named : string? (fuel + 1) cs = some (name, ':' :: tail)) (read : value? fuel tail = some (d, rest))
    (ends : skipSpaces rest = '}' :: after) : fields? (fuel + 1) ('"' :: cs) = some ([(name, d)], after) := by
  simp [fields?, skipSpaces_cons (show isSpace '"' = false from rfl), named,
    skipSpaces_cons (show isSpace ':' = false from rfl), read, ends]

/-! Every step of reading takes a character at least, so fuel for each character of the text is enough. -/

mutual

theorem value?_pretty (d : Data) (writable : IsWritable d) (depth fuel : Nat) {rest : List Char}
    (enough : (pretty depth d).length ≤ fuel) (stops : Stops rest) :
    value? fuel (pretty depth d ++ rest) = some (d, rest) := by
  obtain ⟨fuel, rfl⟩ : ∃ more, fuel = more + 1 := by
    obtain ⟨c, more, shape, _⟩ := opens_pretty depth d
    rw [shape, List.length_cons] at enough
    exact ⟨fuel - 1, by omega⟩
  match d with
  | .null => rfl
  | .flag true => rfl
  | .flag false => rfl
  | .number n => exact value?_integer n stops
  | .text s =>
    have shape : pretty depth (.text s) ++ rest = '"' :: (s.toList.flatMap escaped ++ '"' :: rest) := by
      simp [pretty, scalar, quoted]
    have room := length_le_length_flatMap_escaped s.toList
    have length := congrArg List.length shape
    simp only [List.length_append, List.length_cons] at length
    rw [shape, value?, skipSpaces_cons rfl]
    show (string? (fuel + 1) _).map _ = _
    rw [string?_quoted s (by omega)]
    rfl
  | .list [] => rfl
  | .list (d :: items) =>
    have shape : pretty depth (.list (d :: items)) ++ rest =
        '[' :: (newLine (depth + 1) ++ (itemsText (depth + 1) (d :: items) ++ (newLine depth ++ ']' :: rest))) := by
      simp [pretty, itemsText]
    have length := congrArg List.length shape
    simp only [List.length_append, List.length_cons] at length
    have read := items?_itemsText (d :: items) writable (by simp) (depth + 1) depth fuel rest (by omega)
    obtain ⟨c, more, opens, solid, notList, _⟩ := opens_pretty (depth + 1) d
    rw [itemsText, opens, List.cons_append, List.cons_append] at read
    rw [shape, itemsText, opens, List.cons_append, List.cons_append]
    exact value?_list ((skipSpaces_newLine _ _).trans (skipSpaces_cons solid _)) notList read
  | .record [] => rfl
  | .record (f :: fields) =>
    have shape : pretty depth (.record (f :: fields)) ++ rest =
        '{' :: (newLine (depth + 1) ++ (fieldsText (depth + 1) (f :: fields) ++ (newLine depth ++ '}' :: rest))) := by
      simp [pretty, fieldsText]
    have length := congrArg List.length shape
    simp only [List.length_append, List.length_cons] at length
    have read := fields?_fieldsText (f :: fields) writable (by simp) (depth + 1) depth fuel rest (by omega)
    rw [fieldsText, quoted, List.cons_append, List.cons_append, List.cons_append] at read
    rw [shape, fieldsText, quoted, List.cons_append, List.cons_append, List.cons_append]
    exact value?_record ((skipSpaces_newLine _ _).trans (skipSpaces_cons rfl _)) (by decide) read
  | .unreadable => exact writable.elim

theorem items?_itemsText (items : List Data) (writable : AreWritable items) (some_ : items ≠ [])
    (depth outer fuel : Nat) (rest : List Char) (enough : (itemsText depth items).length < fuel) :
    items? fuel (itemsText depth items ++ (newLine outer ++ ']' :: rest)) = some (items, rest) := by
  obtain ⟨fuel, rfl⟩ : ∃ more, fuel = more + 1 := ⟨fuel - 1, by omega⟩
  match items with
  | [] => exact absurd rfl some_
  | [d] =>
    have read := value?_pretty d writable.1 depth fuel
      (by simpa [itemsText, prettyItems] using Nat.le_of_lt_succ enough) (stops_newLine outer (']' :: rest))
    rw [itemsText, prettyItems, List.append_nil]
    exact items?_last read ((skipSpaces_newLine _ _).trans (skipSpaces_cons rfl _))
  | d :: e :: more =>
    have shape : itemsText depth (d :: e :: more) =
        pretty depth d ++ ',' :: (newLine depth ++ itemsText depth (e :: more)) := by
      simp [itemsText, prettyItems]
    rw [shape, List.length_append, List.length_cons, List.length_append] at enough
    have tail : Stops (',' :: (newLine depth ++ (itemsText depth (e :: more) ++ (newLine outer ++ ']' :: rest)))) :=
      ⟨_, _, rfl, .inl rfl⟩
    have read := value?_pretty d writable.1 depth fuel (by omega) tail
    have next := items?_itemsText (e :: more) writable.2 (by simp) depth outer fuel rest (by omega)
    rw [shape, List.append_assoc, List.cons_append, List.append_assoc, items?_comma read, items?_newLine, next]
    rfl

theorem fields?_fieldsText (fields : List (String × Data)) (writable : HaveWritable fields) (some_ : fields ≠ [])
    (depth outer fuel : Nat) (rest : List Char) (enough : (fieldsText depth fields).length < fuel) :
    fields? fuel (fieldsText depth fields ++ (newLine outer ++ '}' :: rest)) =
      some (fields.map fun f => (some f.1, f.2), rest) := by
  obtain ⟨fuel, rfl⟩ : ∃ more, fuel = more + 1 := ⟨fuel - 1, by omega⟩
  match fields with
  | [] => exact absurd rfl some_
  | [(name, d)] =>
    have shape : fieldsText depth [(name, d)] =
        '"' :: (name.toList.flatMap escaped ++ '"' :: ':' :: ' ' :: pretty depth d) := by
      simp [fieldsText, prettyFields, quoted]
    have room := length_le_length_flatMap_escaped name.toList
    rw [shape] at enough ⊢
    simp only [List.length_append, List.length_cons] at enough
    have named := @string?_quoted (fuel + 1) name (by omega)
      (':' :: ' ' :: (pretty depth d ++ (newLine outer ++ '}' :: rest)))
    have read := value?_pretty d writable.1 depth fuel (by omega) (stops_newLine outer ('}' :: rest))
    rw [List.cons_append, List.append_assoc]
    exact fields?_last named ((value?_space _).trans read)
      ((skipSpaces_newLine _ _).trans (skipSpaces_cons rfl _))
  | (name, d) :: g :: more =>
    have shape : fieldsText depth ((name, d) :: g :: more) =
        '"' :: (name.toList.flatMap escaped ++ '"' :: ':' :: ' ' :: (pretty depth d ++
          ',' :: (newLine depth ++ fieldsText depth (g :: more)))) := by
      simp [fieldsText, prettyFields, quoted]
    have room := length_le_length_flatMap_escaped name.toList
    rw [shape] at enough ⊢
    simp only [List.length_append, List.length_cons] at enough
    have tail : Stops (',' :: (newLine depth ++ (fieldsText depth (g :: more) ++ (newLine outer ++ '}' :: rest)))) :=
      ⟨_, _, rfl, .inl rfl⟩
    have read := value?_pretty d writable.1 depth fuel (by omega) tail
    have next := fields?_fieldsText (g :: more) writable.2 (by simp) depth outer fuel rest (by omega)
    have named := @string?_quoted (fuel + 1) name (by omega) (':' :: ' ' :: (pretty depth d ++
      ',' :: (newLine depth ++ (fieldsText depth (g :: more) ++ (newLine outer ++ '}' :: rest)))))
    have step := fields?_comma named ((value?_space _).trans read)
    rw [fields?_newLine, next] at step
    simpa [List.append_assoc] using step

end

/-- Data reads back from the text that a file holds. -/
theorem read?_prettyText {d : Data} (writable : IsWritable d) : read? (prettyText d ++ "\n") = some d := by
  have text : (prettyText d ++ "\n").toList = pretty 0 d ++ ['\n'] := by
    simp [prettyText]
  have length : (prettyText d ++ "\n").length = (pretty 0 d).length + 1 := by
    rw [← String.length_toList, text]
    simp
  have read := value?_pretty d writable 0 (2 * (prettyText d ++ "\n").length + 2) (by omega)
    ⟨'\n', [], rfl, .inr rfl⟩
  rw [read?, text, read]
  rfl

end Keyring.Json

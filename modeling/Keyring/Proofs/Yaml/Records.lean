import Keyring.Proofs.Document.Formats
import Keyring.Proofs.Yaml.Tokens

/-!
# Records of scalars there and back

From the tokens of its fields a record of scalars is put together again, and each scalar says what it was written
for (`readsBack_of_isFlat`).
-/

namespace Keyring.Yaml

variable {fields : List (String × Data)} {ts : List Token} {handles : List (String × Tag)} {anchors : Anchors}
  {d : Data} {fuel : Nat}

/-- The node of data that one scalar stands for. -/
def scalarNode (d : Data) : Node := .scalar (scalarOf d).1 none (scalarOf d).2

theorem wholeOf?_decimal (n : Nat) : wholeOf? (String.ofList (Text.decimal n)) = some n := by
  rcases Nat.eq_zero_or_pos n with rfl | positive
  · rfl
  -- no sign, and no zero that would announce another base
  obtain ⟨c, more, shape, digit⟩ := Text.exists_decimal_eq_cons n
  have notZero : c ≠ '0' := by
    have head := Text.head_decimal positive
    rw [shape] at head
    simpa using head
  have notPlus : c ≠ '+' := by
    rintro rfl
    cases digit
  have notMinus : c ≠ '-' := by
    rintro rfl
    cases digit
  have unsigned : withoutPlus (c :: more) = c :: more := by simp [withoutPlus, notPlus]
  have unsigned' : withoutSign (c :: more) = c :: more := by simp [withoutSign, notPlus, notMinus]
  have noBase : basedDigits? (c :: more) = none := by simp [basedDigits?, notZero]
  have noZero : hasExtraZero (c :: more) = false := by simp [hasExtraZero, unsigned', notZero]
  have value := Text.natOfDigits?_decimal n
  rw [shape] at value
  simp only [wholeOf?, String.toList_ofList, shape, unsigned, noBase, Option.bind_none, noZero, Bool.false_eq_true,
    if_false, value]

/-- A text that is written plain is not read as something else. -/
theorem own_of_styleOf {s : String} (plain : styleOf s = .plain) : readsAsOther s = false := by
  unfold styleOf at plain
  dsimp only at plain
  split at plain
  · split at plain <;> cases plain
  split at plain
  · rename_i own
    simpa using (Bool.and_eq_true_iff.mp own).1
  · split at plain <;> cases plain

theorem spells_scalarNode (scalar : IsScalar d) : (scalarNode d).spells d = true := by
  cases scalar with
  | text s =>
    rw [scalarNode, scalarOf, Node.spells]
    by_cases plain : styleOf s = .plain
    · simp [own_of_styleOf plain]
    · simp [plain]
  | number n =>
    have digits : plainWord (.number n) = Text.decimal n := plainWord_number n
    rw [scalarNode, scalarOf, Node.spells, digits, wholeOf?_decimal]
    · simp
    · nofun
  | flag b => cases b <;> decide
  | null => decide

namespace Compose

/-- A key and a value that are scalars, and the fields after them. -/
theorem blockFields_field (style style' : Style) (name text : String) :
    (blockFields (fuel + 3)).run
        ⟨.key :: .scalar style name :: .value :: .scalar style' text :: ts, handles, anchors⟩ =
      ((blockFields (fuel + 2)).run ⟨ts, handles, anchors⟩).bind fun (more, s) =>
        some ((.scalar style none name, .scalar style' none text) :: more, s) := rfl

theorem blockFields_end : (blockFields (fuel + 1)).run ⟨.blockEnd :: ts, handles, anchors⟩ =
    some ([], ⟨ts, handles, anchors⟩) := rfl

def fieldNodes (fields : List (String × Data)) : List (Node × Node) :=
  fields.map fun (name, d) => (.scalar .plain none name, scalarNode d)

theorem blockFields_fieldTokens (enough : fields.length + 2 ≤ fuel) :
    (blockFields fuel).run ⟨fieldTokens fields ++ .blockEnd :: ts, handles, anchors⟩ =
      some (fieldNodes fields, ⟨ts, handles, anchors⟩) := by
  induction fields generalizing fuel with
  | nil =>
    obtain ⟨fuel, rfl⟩ : ∃ more, fuel = more + 1 := ⟨fuel - 1, by omega⟩
    exact blockFields_end
  | cons f fields ih =>
    obtain ⟨name, d⟩ := f
    rw [List.length_cons] at enough
    obtain ⟨fuel, rfl⟩ : ∃ more, fuel = more + 3 := ⟨fuel - 3, by omega⟩
    have shape : fieldTokens ((name, d) :: fields) = .key :: .scalar .plain name :: .value ::
        .scalar (scalarOf d).1 (scalarOf d).2 :: fieldTokens fields := rfl
    rw [shape]
    simp only [List.cons_append]
    rw [blockFields_field, ih (by omega)]
    rfl

theorem node_block : (node true false (fuel + 1)).run ⟨.blockMappingStart :: ts, handles, anchors⟩ =
    ((blockFields fuel).run ⟨ts, handles, anchors⟩).bind fun (fields, s) => some (.mapping fields, s) := rfl

/-- A document without directives that starts with a block is the node of the block. -/
theorem document_block : (document (fuel + 1)).run ⟨.blockMappingStart :: ts, [], anchors⟩ =
    ((node true false (fuel + 1)).run ⟨.blockMappingStart :: ts, standardHandles, anchors⟩).bind fun (root, s) =>
      (do skipDocumentEnds (fuel + 1)
          if (← peek).isSome then failure
          return root : Compose Node).run s := by
  rfl

theorem document_record (enough : fields.length + 3 ≤ fuel) :
    (document fuel).run ⟨.blockMappingStart :: (fieldTokens fields ++ [.blockEnd]), [], .empty⟩ =
      some (.mapping (fieldNodes fields), ⟨[], standardHandles, .empty⟩) := by
  obtain ⟨fuel, rfl⟩ : ∃ more, fuel = more + 1 := ⟨fuel - 1, by omega⟩
  rw [document_block, node_block, blockFields_fieldTokens (by omega)]
  rfl

end Compose

/-- A record of scalars is read again as it was written. -/
theorem readsBack_of_isFlat (flat : IsFlat fields) (some_ : fields ≠ []) : ReadsBack (.record fields) := by
  have long : fields.length ≤ (fieldTokens fields).length := by
    clear some_ flat
    induction fields with
    | nil => exact Nat.le_refl 0
    | cons f fields ih =>
      have shape : (fieldTokens (f :: fields)).length = 4 + (fieldTokens fields).length := by
        simp [fieldTokens]
        omega
      rw [shape, List.length_cons]
      omega
  refine ⟨⟨.mapping (Compose.fieldNodes fields), Anchors.empty.table⟩, ?_, ?_⟩
  · rw [Document.ofText?, scan?_record flat some_]
    simp only [bind, Option.bind_some]
    rw [Compose.document_record (by simp; omega)]
    rfl
  · rw [Node.spells, spellFields_iff, Compose.fieldNodes, List.forall₂_map_left_iff, List.forall₂_same]
    rintro ⟨name, d⟩ member
    obtain ⟨isName, scalar⟩ := flat _ member
    exact ⟨by simp [Node.spells, isName.own], spells_scalarNode scalar⟩

end Keyring.Yaml

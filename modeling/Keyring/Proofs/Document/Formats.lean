import Keyring.Proofs.Document.Json
import Keyring.Proofs.Document.Reading
import Keyring.Yaml.Layout
import Keyring.Yaml.Node

/-!
# The two formats

Data spells itself. A node spells data by its scalars, and plain scalars only what
their words mean.
-/

namespace Keyring

theorem forall₂_eq_fields (fields : List (String × Data)) :
    List.Forall₂ (fun value field => value.1 = field.1 ∧ value.2 = field.2) fields fields := by
  induction fields with
  | nil => exact .nil
  | cons field fields ih => exact .cons ⟨rfl, rfl⟩ ih

instance : LawfulFormat Data where
  Spells a d := a = d
  text?_eq := by
    rintro _ s rfl
    rfl
  choice?_eq := by
    rintro _ s rfl
    rfl
  whole?_eq := by
    rintro _ n rfl
    show Reading.ofOption (if (0 : Int) ≤ n then some (n : Int).toNat else none) = pure n
    rw [if_pos (Int.natCast_nonneg n)]
    rfl
  flag?_eq := by
    rintro _ b rfl
    rfl
  items?_eq := by
    rintro _ items rfl
    exact ⟨items, rfl, List.forall₂_eq_eq_eq ▸ rfl⟩
  fields?_eq := by
    rintro _ fields rfl
    exact ⟨fields, rfl, forall₂_eq_fields fields⟩
  optional?_eq := by
    rintro a _ rfl given
    refine ⟨a, ?_, rfl⟩
    cases a <;> first | exact absurd rfl given | rfl

namespace Yaml

namespace Node

mutual

/-- A node says what some data is. Quoted and literal scalars say their text; a plain one says it
where it would not be read as something else. -/
def spells : Node → Data → Bool
  | .scalar style none s, .text t => s = t && (style ≠ .plain || !readsAsOther s)
  | .scalar .plain none s, .number n => 0 ≤ n && wholeOf? s = some n.toNat
  | .scalar .plain none s, .flag b => flagOf? s = some b
  | .scalar .plain none s, .null => s.isEmpty || isNullWord s
  | .sequence items, .list ds => spellItems items ds
  | .mapping fields, .record fs => spellFields fields fs
  | _, _ => false

def spellItems : List Node → List Data → Bool
  | [], [] => true
  | item :: items, d :: ds => item.spells d && spellItems items ds
  | _, _ => false

def spellFields : List (Node × Node) → List (String × Data) → Bool
  | [], [] => true
  | (key, value) :: fields, (name, d) :: fs =>
    key.spells (.text name) && value.spells d && spellFields fields fs
  | _, _ => false

end

end Node

attribute [local simp] Node.spells Node.spellItems Node.spellFields

variable {v : View} {node : Node} {d : Data}

/-! A node that spells data is no reference, and where it is plain it is not taken for nothing. -/

theorem target_of_spells (spells : v.node.spells d = true) : v.target = pure v.node := by
  rw [View.target]
  cases shape : v.node with
  | reference n =>
    rw [shape] at spells
    cases d <;> simp at spells
  | _ => rfl

theorem exists_scalar_of_spells {s : String} (spells : node.spells (.text s) = true) :
    ∃ style, node = .scalar style none s ∧ (style = .plain → readsAsOther s = false) := by
  cases node with
  | scalar style tag text =>
    cases tag with
    | none =>
      obtain ⟨rfl, plain⟩ : text = s ∧ (style = .plain → readsAsOther text = false) := by
        simpa [Classical.or_iff_not_imp_left] using spells
      exact ⟨style, rfl, plain⟩
    | some tag => simp at spells
  | _ => simp at spells

theorem exists_scalar_of_spells_number {n : Nat} (spells : node.spells (.number n) = true) :
    ∃ s, node = .scalar .plain none s ∧ wholeOf? s = some n := by
  cases node with
  | scalar style tag text =>
    cases style <;> cases tag <;> simp at spells
    exact ⟨text, rfl, spells⟩
  | _ => simp at spells

theorem exists_scalar_of_spells_flag {b : Bool} (spells : node.spells (.flag b) = true) :
    ∃ s, node = .scalar .plain none s ∧ flagOf? s = some b := by
  cases node with
  | scalar style tag text =>
    cases style <;> cases tag <;> simp at spells
    exact ⟨text, rfl, spells⟩
  | _ => simp at spells

/-- The plain words that stand for nothing. -/
def nothingWords : List String := ["", "null", "Null", "NULL", "~"]

theorem saysNothing_iff {s : String} : (s.isEmpty || isNullWord s) = true ↔ s ∈ nothingWords := by
  simp [isNullWord, nothingWords, or_assoc]

theorem saysSomething_of_wholeOf? {s : String} {n : Nat} (number : wholeOf? s = some n) :
    (s.isEmpty || isNullWord s) = false := by
  have none_ : ∀ w ∈ nothingWords, wholeOf? w = none := by decide +kernel
  rw [Bool.eq_false_iff, ne_eq, saysNothing_iff]
  intro nothing
  rw [none_ s nothing] at number
  cases number

theorem saysSomething_of_flagOf? {s : String} {b : Bool} (flag : flagOf? s = some b) :
    (s.isEmpty || isNullWord s) = false := by
  have none_ : ∀ w ∈ nothingWords, flagOf? w = none := by decide +kernel
  rw [Bool.eq_false_iff, ne_eq, saysNothing_iff]
  intro nothing
  rw [none_ s nothing] at flag
  cases flag

theorem saysSomething_of_text {s : String} (own : readsAsOther s = false) :
    (s.isEmpty || isNullWord s) = false := by
  simp only [readsAsOther, Bool.or_eq_false_iff] at own
  simp [own.1.1.1.1.1, own.1.1.1.1.2]

theorem spellItems_iff {items : List Node} {ds : List Data} :
    Node.spellItems items ds = true ↔ List.Forall₂ (fun item d => Node.spells item d = true) items ds := by
  induction items generalizing ds with
  | nil => cases ds <;> simp
  | cons item items ih => cases ds <;> simp [ih]

theorem spellFields_iff {fields : List (Node × Node)} {fs : List (String × Data)} :
    Node.spellFields fields fs = true ↔ List.Forall₂ (fun field f =>
      Node.spells field.1 (.text f.1) = true ∧ Node.spells field.2 f.2 = true) fields fs := by
  induction fields generalizing fs with
  | nil => cases fs <;> simp
  | cons field fields ih =>
    obtain ⟨key, value⟩ := field
    rcases fs with _ | ⟨⟨name, d⟩, fs⟩
    · simp
    · simp [ih]

theorem exists_sequence_of_spells {ds : List Data} (spells : node.spells (.list ds) = true) :
    ∃ items, node = .sequence items ∧ List.Forall₂ (fun item d => Node.spells item d = true) items ds := by
  cases node with
  | sequence items => exact ⟨items, rfl, spellItems_iff.mp (by simpa using spells)⟩
  | scalar style tag text => cases style <;> cases tag <;> simp at spells
  | _ => simp at spells

theorem exists_mapping_of_spells {fs : List (String × Data)} (spells : node.spells (.record fs) = true) :
    ∃ fields, node = .mapping fields ∧ List.Forall₂ (fun field f =>
      Node.spells field.1 (.text f.1) = true ∧ Node.spells field.2 f.2 = true) fields fs := by
  cases node with
  | mapping fields => exact ⟨fields, rfl, spellFields_iff.mp (by simpa using spells)⟩
  | scalar style tag text => cases style <;> cases tag <;> simp at spells
  | _ => simp at spells

theorem scalar?_of_node {style : Style} {tag : Option Tag} {s : String} (is : v.node = .scalar style tag s) :
    v.scalar? = pure (style, tag, s) := by
  have target : v.target = pure (.scalar style tag s) := by rw [View.target, is]
  rw [View.scalar?, target, pure_bind]

theorem kindText?_of_node {tag : Option Tag} {s : String} (is : v.node = .scalar .plain tag s) (kind : Tag) :
    v.kindText? kind = pure s := by
  rw [View.kindText?, scalar?_of_node is, pure_bind]
  rfl

theorem text?_of_spells {s : String} (spells : v.node.spells (.text s) = true) : v.text? = pure s := by
  obtain ⟨style, is, _⟩ := exists_scalar_of_spells spells
  rw [View.text?, scalar?_of_node is, pure_bind]

theorem exists_fields_of_spells (v : View) {fields : List (Node × Node)} {fs : List (String × Data)}
    (spelled : List.Forall₂ (fun field f =>
      Node.spells field.1 (.text f.1) = true ∧ Node.spells field.2 f.2 = true) fields fs) :
    ∃ values : List (String × View),
      (fields.mapM fun (key, value) => return (← (v.at_ key).text?, v.at_ value) : Reading _) = pure values ∧
        List.Forall₂ (fun value f => value.1 = f.1 ∧ value.2.node.spells f.2 = true) values fs := by
  induction spelled with
  | nil => exact ⟨[], rfl, .nil⟩
  | @cons field f fields fs first _ ih =>
    obtain ⟨key, value⟩ := field
    obtain ⟨values, read, holds⟩ := ih
    have name : (v.at_ key).text? = pure f.1 := text?_of_spells first.1
    refine ⟨(f.1, v.at_ value) :: values, ?_, .cons ⟨rfl, first.2⟩ holds⟩
    rw [List.mapM_cons, read]
    simp only [name, pure_bind]

theorem saysSomething_of_spells {s : String} (is : node = .scalar .plain none s) (spells : node.spells d = true)
    (given : d ≠ .null) : (s.isEmpty || isNullWord s) = false := by
  subst is
  cases d with
  | null => exact absurd rfl given
  | text t =>
    obtain ⟨style, same, own⟩ := exists_scalar_of_spells spells
    cases same
    exact saysSomething_of_text (own rfl)
  | number n =>
    have number : wholeOf? s = some n.toNat := by
      simp only [Node.spells, Bool.and_eq_true, decide_eq_true_eq] at spells
      exact spells.2
    exact saysSomething_of_wholeOf? number
  | flag b => exact saysSomething_of_flagOf? (b := b) (by simpa using spells)
  | _ => simp at spells

theorem optional?_of_spells (spells : v.node.spells d = true) (given : d ≠ .null) :
    v.optional? = pure (some (v.at_ v.node)) := by
  rw [View.optional?, target_of_spells spells, pure_bind]
  split
  · rename_i tag s is
    cases tag with
    | none =>
      rw [View.isAbsent?, saysSomething_of_spells is spells given]
      rfl
    | some tag =>
      rw [is] at spells
      cases d <;> simp at spells
  · rfl

instance : LawfulFormat View where
  Spells v d := v.node.spells d = true
  text?_eq := by
    intro v s spells
    exact text?_of_spells spells
  choice?_eq := by
    intro v s spells
    obtain ⟨style, is, _⟩ := exists_scalar_of_spells spells
    show v.choice? = pure s
    rw [View.choice?, scalar?_of_node is, pure_bind]
    rfl
  whole?_eq := by
    intro v n spells
    obtain ⟨s, is, number⟩ := exists_scalar_of_spells_number spells
    show v.whole? = pure n
    rw [View.whole?, kindText?_of_node is, pure_bind, number]
    rfl
  flag?_eq := by
    intro v b spells
    obtain ⟨s, is, flag⟩ := exists_scalar_of_spells_flag spells
    show v.flag? = pure b
    rw [View.flag?, kindText?_of_node is, pure_bind, flag]
    rfl
  items?_eq := by
    intro v ds spells
    obtain ⟨items, is, spelled⟩ := exists_sequence_of_spells spells
    have target : v.target = pure (.sequence items) := by rw [View.target, is]
    refine ⟨items.map v.at_, ?_, List.forall₂_map_left_iff.mpr spelled⟩
    show v.items? = pure _
    rw [View.items?, target, pure_bind]
  fields?_eq := by
    intro v fs spells
    obtain ⟨fields, is, spelled⟩ := exists_mapping_of_spells spells
    have target : v.target = pure (.mapping fields) := by rw [View.target, is]
    obtain ⟨values, read, holds⟩ := exists_fields_of_spells v spelled
    refine ⟨values, ?_, holds⟩
    show v.fields? = pure _
    rw [View.fields?, target, pure_bind]
    show (fields.mapM _ >>= _) = _
    rw [read, pure_bind]
  optional?_eq := by
    intro v d spells given
    exact ⟨v.at_ v.node, optional?_of_spells spells given, spells⟩

/-- The text that is written of some data is one document, and that document spells the data. -/
def ReadsBack (d : Data) : Prop := ∃ doc, Document.ofText? (documentText d) = some doc ∧ doc.root.spells d = true

instance (d : Data) : Decidable (ReadsBack d) :=
  decidable_of_iff ((Document.ofText? (documentText d)).any (·.root.spells d) = true) (by
    rw [ReadsBack, Option.any_eq_true])

end Yaml

end Keyring

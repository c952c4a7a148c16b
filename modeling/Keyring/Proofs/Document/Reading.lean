import Keyring.Proofs.Time.Rfc3339
import Keyring.Document.Moment
import Mathlib.Data.List.Forall2
import Mathlib.Data.List.Nodup

/-!
# Reading what was written

A value of a format spells data when its views show that data. From every value
that spells it, what was written of a thing is read as that thing (`Reads`).
-/

namespace Keyring

/-- What the values of a format spell, and what the views show of it. -/
class LawfulFormat (α : Type) [Format α] where
  Spells : α → Data → Prop
  text?_eq {a : α} {s : String} : Spells a (.text s) → Format.text? a = pure s
  choice?_eq {a : α} {s : String} : Spells a (.text s) → Format.choice? a = pure s
  whole?_eq {a : α} {n : Nat} : Spells a (.number n) → Format.whole? a = pure n
  flag?_eq {a : α} {b : Bool} : Spells a (.flag b) → Format.flag? a = pure b
  items?_eq {a : α} {items : List Data} : Spells a (.list items) →
    ∃ values, Format.items? a = pure values ∧ List.Forall₂ Spells values items
  fields?_eq {a : α} {fields : List (String × Data)} : Spells a (.record fields) →
    ∃ values, Format.fields? a = pure (.named values) ∧
      List.Forall₂ (fun value field => value.1 = field.1 ∧ Spells value.2 field.2) values fields
  optional?_eq {a : α} {d : Data} : Spells a d → d ≠ .null →
    ∃ b, Format.optional? a = pure (some b) ∧ Spells b d

namespace Format

open LawfulFormat

variable {α β : Type} [Format α] [LawfulFormat α] {read : α → Reading β} {d : Data} {b : β}
  {values : List (String × α)} {fields : List (String × Data)} {name : String}

/-- Data is read as a thing from whatever spells it. -/
def Reads (read : α → Reading β) (d : Data) (b : β) : Prop := ∀ a, Spells a d → read a = pure b

theorem reads_text (s : String) : Reads (text? : α → Reading String) (.text s) s := fun _ => text?_eq

theorem reads_flag (b : Bool) : Reads (flag? : α → Reading Bool) (.flag b) b := fun _ => flag?_eq

theorem reads_wholeBelow {bound n : Nat} (small : n < bound) :
    Reads (wholeBelow bound : α → Reading Nat) (Data.ofNat n) n := by
  intro a spells
  rw [wholeBelow, whole?_eq spells, pure_bind]
  exact if_pos small

theorem reads_oneOf {ofName? : String → Option β} {s : String} (named : ofName? s = some b) :
    Reads (oneOf ofName? : α → Reading β) (.text s) b := by
  intro a spells
  rw [oneOf, choice?_eq spells, pure_bind, named]
  rfl

theorem reads_instant {t : Time.Instant} (back : t.ReadsBack) :
    Reads (instant? : α → Reading Time.Instant) (Data.ofInstant t) t := by
  intro a spells
  have read : Time.Instant.ofText? t.text = some t := back
  rw [instant?, text?_eq spells, pure_bind, read]
  rfl

theorem reads_listOf {data : β → Data} {items : List β} (each : ∀ b ∈ items, Reads read (data b) b) :
    Reads (listOf read) (.list (items.map data)) items := by
  intro a spells
  obtain ⟨values, shown, spelled⟩ := items?_eq spells
  rw [listOf, shown, pure_bind]
  clear shown spells
  induction items generalizing values with
  | nil =>
    cases spelled
    rfl
  | cons b items ih =>
    obtain ⟨value, more, first, rest, rfl⟩ := List.forall₂_cons_right_iff.mp spelled
    rw [List.mapM_cons, each b List.mem_cons_self value first, pure_bind,
      ih (fun c member => each c (List.mem_cons_of_mem _ member)) more rest, pure_bind]

theorem reads_texts (items : List String) :
    Reads (texts : α → Reading (List String)) (.list (items.map .text)) items :=
  reads_listOf fun s _ => reads_text s

/-- Fields that spell the fields of a record, name by name. -/
def Holds (values : List (String × α)) (fields : List (String × Data)) : Prop :=
  List.Forall₂ (fun value field => value.1 = field.1 ∧ Spells value.2 field.2) values fields

theorem Holds.names_eq (holds : Holds values fields) : values.map Prod.fst = fields.map Prod.fst := by
  induction holds with
  | nil => rfl
  | cons first _ ih => rw [List.map_cons, List.map_cons, first.1, ih]

theorem Holds.lookup (holds : Holds values fields) (name : String) :
    Option.Rel Spells (values.lookup name) (fields.lookup name) := by
  induction holds with
  | nil => exact .none
  | @cons value field values fields first _ ih =>
    obtain ⟨key, value⟩ := value
    obtain ⟨key', d⟩ := field
    obtain ⟨rfl, spells⟩ := first
    rw [List.lookup_cons, List.lookup_cons]
    cases name == key
    · exact ih
    · exact .some spells

theorem Holds.exists_of_lookup (holds : Holds values fields) (found : fields.lookup name = some d) :
    ∃ a, values.lookup name = some a ∧ Spells a d := by
  have related := holds.lookup name
  rw [found] at related
  generalize values.lookup name = value at related ⊢
  cases related with
  | some spells => exact ⟨_, rfl, spells⟩

theorem Holds.lookup_eq_none (holds : Holds values fields) (found : fields.lookup name = none) :
    values.lookup name = none := by
  have related := holds.lookup name
  rw [found] at related
  generalize values.lookup name = value at related ⊢
  cases related with
  | none => rfl

/-- A record whose names differ is taken as a whole. -/
theorem record?_eq {a : α} (spells : Spells a (.record fields)) (distinct : (fields.map Prod.fst).Nodup)
    (declared : List String) : ∃ values, record? declared a = pure values ∧ Holds values fields := by
  obtain ⟨values, shown, holds⟩ := fields?_eq spells
  refine ⟨values, ?_, holds⟩
  have single : repeats declared values = false := by
    rw [repeats, List.any_eq_false]
    intro name _ twice
    have once := List.nodup_iff_count_le_one.mp distinct name
    rw [← Holds.names_eq holds] at once
    have : 1 < (values.map Prod.fst).count name := by simpa using twice
    omega
  rw [record?, shown, pure_bind, declaredFields?, single]
  rfl

theorem required_eq (holds : Holds values fields) (found : fields.lookup name = some d) (reads : Reads read d b) :
    required values name read = pure b := by
  obtain ⟨a, here, spells⟩ := holds.exists_of_lookup found
  rw [required, here]
  exact reads a spells

theorem withDefault_eq {fallback : β} (holds : Holds values fields) (found : fields.lookup name = some d)
    (reads : Reads read d b) : withDefault values name fallback read = pure b := by
  obtain ⟨a, here, spells⟩ := holds.exists_of_lookup found
  rw [withDefault, here]
  exact reads a spells

theorem optionalField_eq (value : Option β) (data : β → Data) (holds : Holds values fields)
    (found : fields.lookup name = value.map data) (given : ∀ b, data b ≠ .null)
    (reads : ∀ b, value = some b → Reads read (data b) b) :
    optionalField values name read = pure value := by
  rw [optionalField]
  cases value with
  | none => rw [holds.lookup_eq_none found]
  | some b =>
    obtain ⟨a, here, spells⟩ := holds.exists_of_lookup found
    obtain ⟨c, shown, spells'⟩ := optional?_eq spells (given b)
    rw [here]
    show optional? a >>= _ = _
    rw [shown, pure_bind]
    show read c >>= _ = _
    rw [reads b rfl c spells', pure_bind]

theorem withDefault_texts_eq (items : List String) (holds : Holds values fields)
    (found : fields.lookup name = if items = [] then none else some (.list (items.map .text))) :
    withDefault values name [] texts = pure items := by
  by_cases empty : items = []
  · rw [if_pos empty] at found
    rw [withDefault, holds.lookup_eq_none found, empty]
  · rw [if_neg empty] at found
    exact withDefault_eq holds found (reads_texts items)

end Format

end Keyring

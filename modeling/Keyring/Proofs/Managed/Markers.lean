import Mathlib.Data.String.Basic
import Keyring.Managed.Block
import Keyring.Proofs.Managed.Section

/-!
# Malformed sections

The marker lines of a text alone decide whether it can be worked on: there is none of them, or
a begin marker and later an end marker. Of any other text nothing is merged, stripped or
compared, and it is told why. Where there are two, the section is their lines and those
between, as a range of bytes that cuts no character.
-/

namespace Keyring.Managed

open Text

/-- The lines that hold a marker, in order. -/
def markers (text : List Char) : List (List Char) := (lines text).filter isMarker

/-- No marker at all, or just one begin marker and after it just one end marker. -/
def WellMarked (text : List Char) : Prop :=
  markers text = [] ∨
    ∃ first last, markers text = [first, last] ∧ isBegin first = true ∧ isEnd last = true

theorem markers_eq_nil_iff {text : List Char} : markers text = [] ↔ IsFree text := by
  simp only [markers, List.filter_eq_nil_iff, IsFree, Bool.not_eq_true]

theorem Parts.Divide.markers {p : Parts} {text : List Char} (divide : p.Divide text) :
    ∃ first last, markers text = [first, last] ∧ isBegin first = true ∧ isEnd last = true := by
  obtain ⟨first, body, last, found, begins, free, ends⟩ := divide.inside
  have nothing {ls : List (List Char)} (free : ∀ l ∈ ls, isMarker l = false) : ls.filter isMarker = [] :=
    List.filter_eq_nil_iff.mpr (by simpa using free)
  refine ⟨first, last, ?_, begins, ends⟩
  rw [Managed.markers, divide.whole, found, List.filter_append, List.filter_append, List.cons_append,
    List.filter_cons_of_pos (isMarker_of_isBegin begins), List.filter_append, nothing divide.before,
    nothing free, nothing divide.after, List.filter_cons_of_pos (isMarker_of_isEnd ends)]
  rfl

theorem wellMarked_iff {text : List Char} :
    WellMarked text ↔ IsFree text ∨ ∃ p : Parts, p.Divide text := by
  rw [WellMarked, markers_eq_nil_iff]
  refine or_congr_right ⟨?_, fun ⟨_, divide⟩ => divide.markers⟩
  rintro ⟨first, last, found, begins, ends⟩
  obtain ⟨front, body, back, whole, freeFront, freeBody, freeBack⟩ := lines_of_markers found
  exact ⟨_, Parts.Divide.of_lines whole freeFront begins freeBody ends freeBack⟩

/-- A result that is an error just where the markers of the text are malformed, and then says so. -/
structure RefusesMalformed {α : Type} (text : List Char) (result : Except Error α) : Prop where
  refused : (∃ e, result = .error e) ↔ ¬WellMarked text
  blamed : ∀ e, result = .error e → ∃ reason, e = .malformedSection reason

theorem refusesMalformed_locate (text : List Char) : RefusesMalformed text (locate text) where
  refused := by
    rw [wellMarked_iff]
    constructor
    · rintro ⟨e, failed⟩ (free | ⟨p, divide⟩)
      · rw [locate_eq_none_iff.mpr free] at failed
        cases failed
      · rw [locate_of_divide divide] at failed
        cases failed
    · intro malformed
      rcases located : locate text with e | found
      · exact ⟨e, rfl⟩
      · exact absurd (sectioned_of_locate located) malformed
  blamed := by
    intro e failed
    rw [locate] at failed
    split at failed
    · cases failed
    · split at failed
      · cases failed
      · cases failed
        exact ⟨_, rfl⟩
    all_goals
      cases failed
      exact ⟨_, rfl⟩

/-- What cannot fail by itself refuses what it starts from. -/
theorem RefusesMalformed.bind {α β : Type} {text : List Char} {result : Except Error α}
    (refuses : RefusesMalformed text result) {next : α → Except Error β}
    (goes : ∀ a, result = .ok a → ∃ b, next a = .ok b) : RefusesMalformed text (result >>= next) := by
  rcases result with e | a
  · exact ⟨⟨fun _ => refuses.refused.mp ⟨e, rfl⟩, fun _ => ⟨e, rfl⟩⟩,
      fun e' failed => refuses.blamed e' (by cases failed; rfl)⟩
  · obtain ⟨b, done⟩ := goes a rfl
    have result : (Except.ok a >>= next) = .ok b := done
    rw [result]
    have well := refuses.refused
    simp only [reduceCtorEq, exists_false] at well ⊢
    exact ⟨by simpa using well, by simp⟩

/-- No character is cut at the bytes that were located. -/
theorem exists_around {text : List Char} {s : Section} (located : locate text = .ok (some s)) :
    ∃ before after, around text s = .ok (before, after) := by
  obtain ⟨p, divide, rfl⟩ := divide_of_locate located
  exact ⟨_, _, around_of_divide divide⟩

theorem refusesMalformed_merge (text block : List Char) : RefusesMalformed text (merge text block) :=
  (refusesMalformed_locate text).bind fun found located => by
    rcases found with _ | s
    · exact ⟨_, rfl⟩
    · obtain ⟨before, after, cut⟩ := exists_around located
      simp only [cut, bind, Except.bind]
      exact ⟨_, rfl⟩

theorem refusesMalformed_strip (text : List Char) : RefusesMalformed text (strip text) :=
  (refusesMalformed_locate text).bind fun found located => by
    rcases found with _ | s
    · exact ⟨_, rfl⟩
    · obtain ⟨before, after, cut⟩ := exists_around located
      simp only [cut, bind, Except.bind]
      exact ⟨_, rfl⟩

theorem refusesMalformed_conflicts (text : List Char) (inv : Inventory) :
    RefusesMalformed text (conflicts text inv) :=
  (refusesMalformed_strip text).bind fun _ _ => ⟨_, rfl⟩

/-- Where a run of characters ends that starts a text, in bytes. -/
def bytesTo (front : List Char) : String.Pos.Raw := (String.ofList front).rawEndPos

theorem bytesTo_eq (front : List Char) : bytesTo front = ⟨byteCount front⟩ := by
  rw [bytesTo, String.rawEndPos_ofList]
  congr 1
  induction front with
  | nil => rfl
  | cons c rest ih => rw [String.utf8Len_cons, byteCount_cons, ih, Nat.add_comm]

/-- The bytes from the start to the end of a section are a run of the text's lines. -/
structure Section.Spans (s : Section) (text : List Char) (front section_ : List (List Char)) : Prop where
  start : ⟨s.start⟩ = bytesTo front.flatten
  stop : ⟨s.stop⟩ = bytesTo (front ++ section_).flatten
  startValid : String.Pos.Raw.IsValid (String.ofList text) ⟨s.start⟩
  stopValid : String.Pos.Raw.IsValid (String.ofList text) ⟨s.stop⟩
  ordered : s.start < s.stop
  within : ⟨s.stop⟩ ≤ (String.ofList text).rawEndPos
  content : String.Pos.Raw.extract (String.ofList text) ⟨s.start⟩ ⟨s.stop⟩ = String.ofList section_.flatten

theorem isValid_bytesTo (front back : List Char) :
    (bytesTo front).IsValid (String.ofList (front ++ back)) :=
  String.Pos.Raw.isValid_iff_exists_append.mpr ⟨_, _, String.ofList_append, rfl⟩

theorem extract_bytesTo (front inside back : List Char) :
    (bytesTo front).extract (String.ofList (front ++ inside ++ back)) (bytesTo (front ++ inside)) =
      String.ofList inside := by
  simp only [bytesTo, String.rawEndPos_ofList, String.utf8Len_append]
  exact String.extract_of_valid front inside back

theorem Parts.Divide.spans {p : Parts} {text : List Char} (divide : p.Divide text) :
    p.range.Spans text (lines p.before) (lines p.inside) := by
  have start : ⟨p.range.start⟩ = bytesTo p.before := (bytesTo_eq p.before).symm
  have stop : ⟨p.range.stop⟩ = bytesTo (p.before ++ p.inside) := (bytesTo_eq (p.before ++ p.inside)).symm
  have stopValid : (bytesTo (p.before ++ p.inside)).IsValid (String.ofList text) := by
    rw [divide.text_eq]
    exact isValid_bytesTo (p.before ++ p.inside) p.after
  refine ⟨?_, ?_, ?_, ?_, ?_, ?_, ?_⟩
  · rw [flatten_lines, start]
  · rw [List.flatten_append, flatten_lines, flatten_lines, stop]
  · rw [start, divide.text_eq, List.append_assoc]
    exact isValid_bytesTo p.before (p.inside ++ p.after)
  · rwa [stop]
  · have some_ := byteCount_pos divide.inside.ne_nil
    simp only [Parts.range, byteCount_append]
    omega
  · rw [stop]
    exact stopValid.le_rawEndPos
  · rw [start, stop, flatten_lines, divide.text_eq]
    exact extract_bytesTo p.before p.inside p.after

/-- Merging, stripping and comparing refuse a text just where its markers are malformed, and say
so. Where a begin marker and an end marker are all the markers there are, the located section is
the bytes of their lines and of the lines between, from the start of the one to the end of the
other. -/
theorem refused_iff_malformed (text block : List Char) (inv : Inventory) :
    RefusesMalformed text (merge text block) ∧ RefusesMalformed text (strip text) ∧
      RefusesMalformed text (conflicts text inv) ∧
      ∀ first last, markers text = [first, last] → isBegin first = true → isEnd last = true →
        ∃ front body back s, lines text = front ++ (first :: body ++ [last]) ++ back ∧
          locate text = .ok (some s) ∧ s.Spans text front (first :: body ++ [last]) := by
  refine ⟨refusesMalformed_merge text block, refusesMalformed_strip text,
    refusesMalformed_conflicts text inv, ?_⟩
  intro first last found begins ends
  obtain ⟨front, body, back, whole, freeFront, freeBody, freeBack⟩ := lines_of_markers found
  have divide := Parts.Divide.of_lines whole freeFront begins freeBody ends freeBack
  refine ⟨front, body, back, _, whole, locate_of_divide divide, ?_⟩
  have spans := divide.spans
  obtain ⟨frontLines, insideLines, _⟩ := lines_between whole
  rwa [frontLines, insideLines] at spans

/-- A section between lines of the user, whose first marker is indented and whose last line is open. -/
def indentedText : List Char := ("# größer\n  " ++ beginMarker ++ "\nHost web\n" ++ endMarker).toList

theorem refused_iff_malformed_of_indentedText :
    markers indentedText = [("  " ++ beginMarker ++ "\n").toList, endMarker.toList] ∧
      locate indentedText = .ok (some ⟨11, 97⟩) ∧
      ∃ front body back s, lines indentedText =
          front ++ (("  " ++ beginMarker ++ "\n").toList :: body ++ [endMarker.toList]) ++ back ∧
        locate indentedText = .ok (some s) ∧
        s.Spans indentedText front (("  " ++ beginMarker ++ "\n").toList :: body ++ [endMarker.toList]) := by
  have found : markers indentedText = [("  " ++ beginMarker ++ "\n").toList, endMarker.toList] := by
    decide +kernel
  exact ⟨found, by decide +kernel, (refused_iff_malformed indentedText [] Inventory.empty).2.2.2 _ _ found
    (by decide +kernel) (by decide +kernel)⟩

end Keyring.Managed

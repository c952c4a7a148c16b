import Keyring.Layout
import Keyring.Proofs.Text.Words
import Keyring.Text.Utf8

/-!
# Segments of paths

A path is its segments with slashes between them. What `join` and
`withFileName` make has the segments of its parts.
-/

namespace Keyring

namespace Path

open Text

/-- The names that a path is followed along. -/
def names (p : Path) : List String := p.segments.map String.ofList

theorem length_names_le (p : Path) : p.names.length ≤ p.length + 1 := by
  rw [names, List.length_map, segments, ← String.length_toList]
  exact length_pieces_le _

theorem names_ne_nil (p : Path) : p.names ≠ [] := by
  rw [names, Ne, List.map_eq_nil_iff]
  exact pieces_ne_nil _

theorem exists_last_segment (p : Path) : ∃ front last, p.segments = front ++ [last] :=
  ⟨_, _, (List.dropLast_concat_getLast (pieces_ne_nil p.toList)).symm⟩

/-- A name taken from a path has no slash, and only characters of the path. -/
theorem mem_of_mem_names {p : Path} {name : String} (member : name ∈ p.names) :
    '/' ∉ name.toList ∧ ∀ c ∈ name.toList, c ∈ p.toList := by
  obtain ⟨segment, inside, rfl⟩ := List.mem_map.mp member
  rw [String.toList_ofList]
  refine ⟨fun slash => ?_, fun c found => (mem_of_mem_pieces inside c found).1⟩
  simpa using (mem_of_mem_pieces inside '/' slash).2

theorem segments_append_slash (front back : String) :
    segments (front ++ "/" ++ back) = segments front ++ segments back := by
  have whole : (front ++ "/" ++ back).toList = front.toList ++ '/' :: back.toList := by simp
  rw [segments, whole, pieces_append (by simp)]
  rfl

theorem names_append_slash (front back : String) :
    names (front ++ "/" ++ back) = names front ++ names back := by
  rw [names, segments_append_slash, List.map_append]
  rfl

theorem segments_of_plain {name : String} (plain : '/' ∉ name.toList) : segments name = [name.toList] := by
  rw [segments, pieces_of_forall]
  intro c member
  rw [decide_eq_false_iff_not]
  rintro rfl
  exact plain member

theorem names_of_plain {name : String} (plain : '/' ∉ name.toList) : names name = [name] := by
  rw [names, segments_of_plain plain]
  simp

/-- A path with a slash at its end has an empty last segment. -/
theorem segments_of_slash {p : Path} (slash : p.toList.getLast? = some '/') :
    ∃ front, p.segments = front ++ [[]] := by
  obtain ⟨front, chars⟩ := List.getLast?_eq_some_iff.mp slash
  refine ⟨pieces (· = '/') front, ?_⟩
  rw [segments, chars, pieces_append (by simp)]
  rfl

theorem isAbsolute_append {front : String} (some : front ≠ "") (back : String) :
    isAbsolute (front ++ back) = isAbsolute front := by
  rcases chars : front.toList with _ | ⟨c, rest⟩
  · exact absurd (String.toList_eq_nil_iff.mp chars) some
  · simp [isAbsolute, String.toList_append, chars]

theorem isAbsolute_of_plain {name : String} (plain : '/' ∉ name.toList) : isAbsolute name = false := by
  rw [isAbsolute, decide_eq_false_iff_not]
  exact fun first => plain (List.mem_of_mem_head? first)

/-- A name put after a path comes after its names; a slash at the end of the path does not count. -/
theorem names_join (p : Path) {name : String} (plain : '/' ∉ name.toList) :
    names (join p name) = names p ++ [name] ∨
      ∃ front, names p = front ++ [""] ∧ names (join p name) = front ++ [name] := by
  rw [join, isAbsolute_of_plain plain, if_neg (by simp)]
  by_cases empty : p = ""
  · subst empty
    refine .inr ⟨[], rfl, ?_⟩
    simpa using names_of_plain plain
  by_cases slash : p.toList.getLast? = some '/'
  · obtain ⟨front, ends⟩ := List.getLast?_eq_some_iff.mp slash
    have whole : p = String.ofList front ++ "/" ++ "" := by
      rw [← String.ofList_toList (s := p), ends]
      simp [String.ofList_append]
    refine .inr ⟨names (String.ofList front), ?_, ?_⟩
    · rw [whole, names_append_slash]
      rfl
    · have joined : p ++ name = String.ofList front ++ "/" ++ name := by rw [whole]; simp
      rw [if_pos (.inr slash), joined, names_append_slash, names_of_plain plain]
  · rw [if_neg (by simp [empty, slash]), names_append_slash, names_of_plain plain]
    exact .inl rfl

theorem isAbsolute_join (p : Path) {name : String} (plain : '/' ∉ name.toList) :
    isAbsolute (join p name) = isAbsolute p := by
  rw [join, isAbsolute_of_plain plain, if_neg (by simp)]
  by_cases empty : p = ""
  · subst empty
    simpa [isAbsolute_of_plain plain] using (by decide : isAbsolute "" = false).symm
  · split
    · exact isAbsolute_append empty name
    · rw [String.append_assoc]
      exact isAbsolute_append empty _

end Path

end Keyring

import Keyring.Managed.Block
import Keyring.Proofs.Managed.Section
import Keyring.Proofs.Text.Words

/-!
# Merging and stripping

`merge` leaves a text with exactly the block as its section, and `strip` gives
back what stood around it.
-/

namespace Keyring.Managed

open Text

/-! ## The separator -/

/-- A text without a section as it stands before the block that is merged into it. -/
def lead (text : List Char) : List Char := if text = [] then [] else closeLine text ++ ['\n']

theorem isClosed_closeLine (text : List Char) : IsClosed (closeLine text) := by
  rw [closeLine]
  split
  · assumption
  · exact .inr (endsLine_append (a := text) rfl)

theorem isClosed_lead (text : List Char) : IsClosed (lead text) := by
  rw [lead]
  split
  · exact .inl rfl
  · exact .inr (endsLine_append (a := closeLine text) rfl)

theorem isFree_feed : IsFree ['\n'] := by decide

theorem trim_append_feed (line : List Char) : trim (line ++ ['\n']) = trim line := by
  have feed : IsBlanks ['\n'] := by simp [IsBlanks, isBlank]
  have nothing : IsBlanks [] := by simp [IsBlanks]
  exact trim_append_of_blanks nothing feed line

theorem isMarker_append_feed (line : List Char) : isMarker (line ++ ['\n']) = isMarker line := by
  simp only [isMarker, isBegin, isEnd, trim_append_feed]

theorem isFree_closeLine {text : List Char} (free : IsFree text) : IsFree (closeLine text) := by
  rw [closeLine]
  split
  · exact free
  · rename_i open_
    obtain ⟨front, last, found, completed⟩ := lines_complete open_
    rw [IsFree, found] at free
    intro line member
    rw [completed, List.mem_append, List.mem_singleton] at member
    rcases member with member | rfl
    · exact free line (List.mem_append_left _ member)
    · rw [isMarker_append_feed]
      exact free last (by simp)

theorem isFree_lead {text : List Char} (free : IsFree text) : IsFree (lead text) := by
  rw [lead]
  split
  · intro line member
    cases member
  · exact (isFree_closeLine free).append (isClosed_closeLine text) isFree_feed

/-- What is dropped is a line feed after another one, or nothing. -/
theorem dropSeparator_cases (text : List Char) :
    dropSeparator text = text ∨
      endsLine (dropSeparator text) = true ∧ text = dropSeparator text ++ ['\n'] := by
  rw [dropSeparator]
  split
  · rename_i rest ends
    have whole : text = rest.reverse ++ ['\n'] ++ ['\n'] := by
      rw [← List.reverse_reverse text, ends]
      simp
    refine .inr ⟨?_, ?_⟩
    · rw [List.reverse_cons]
      exact endsLine_append rfl
    · rw [List.reverse_cons]
      exact whole
  · exact .inl rfl

theorem dropSeparator_feed {text : List Char} (ends : endsLine text = true) :
    dropSeparator (text ++ ['\n']) = text := by
  obtain ⟨front, rfl⟩ := endsLine_iff.mp ends
  simp [dropSeparator]

theorem dropSeparator_lead (text : List Char) : dropSeparator (lead text) = closeLine text := by
  by_cases empty : text = []
  · subst empty
    rfl
  · rw [lead, if_neg empty]
    refine dropSeparator_feed ((isClosed_closeLine text).resolve_left ?_)
    rw [closeLine]
    split
    · exact empty
    · simp

theorem isClosed_dropSeparator {text : List Char} (closed : IsClosed text) :
    IsClosed (dropSeparator text) := by
  rcases dropSeparator_cases text with same | ⟨ends, _⟩
  · rwa [same]
  · exact .inr ends

theorem isFree_dropSeparator {text : List Char} (free : IsFree text) : IsFree (dropSeparator text) := by
  rcases dropSeparator_cases text with same | ⟨ends, whole⟩
  · rwa [same]
  · rw [whole] at free
    exact free.left (.inr ends)

theorem lines_lineOf_beginMarker : lines (lineOf beginMarker) = [lineOf beginMarker] := by decide

theorem lines_lineOf_endMarker : lines (lineOf endMarker) = [lineOf endMarker] := by decide

theorem lines_framed {body : List Char} (closed : IsClosed body) :
    lines (lineOf beginMarker ++ body ++ lineOf endMarker) =
      lineOf beginMarker :: lines body ++ [lineOf endMarker] := by
  rw [List.append_assoc, lines_append (.inr (by decide)), lines_append closed,
    lines_lineOf_beginMarker, lines_lineOf_endMarker]
  rfl

theorem IsBlock.of_free {body : List Char} (closed : IsClosed body) (free : IsFree body) :
    IsBlock (lineOf beginMarker ++ body ++ lineOf endMarker) where
  marked := ⟨lineOf beginMarker, lines body, lineOf endMarker, lines_framed closed, by decide, free,
    by decide⟩
  complete := endsLine_append (by decide)

theorem merge_of_divide {p : Parts} {text : List Char} (divide : p.Divide text) (block : List Char) :
    merge text block = .ok (p.before ++ block ++ p.after) := by
  simp only [merge, locate_of_divide divide, bind, Except.bind, around_of_divide divide]
  rfl

theorem merge_of_free {text : List Char} (free : IsFree text) (block : List Char) :
    merge text block = .ok (lead text ++ block) := by
  rw [merge, locate_eq_none_iff.mpr free, lead]
  by_cases empty : text = []
  · simp [bind, Except.bind, pure, Except.pure, empty]
  · simp [bind, Except.bind, pure, Except.pure, empty]

theorem strip_of_divide {p : Parts} {text : List Char} (divide : p.Divide text) :
    strip text = .ok (dropSeparator p.before ++ p.after) := by
  simp only [strip, locate_of_divide divide, bind, Except.bind, around_of_divide divide]
  rfl

theorem strip_of_free {text : List Char} (free : IsFree text) : strip text = .ok text := by
  rw [strip, locate_eq_none_iff.mpr free]
  rfl

/-- A text can be merged into only if it has no section or just one. -/
theorem free_or_divide_of_merge {text block merged : List Char} (found : merge text block = .ok merged) :
    IsFree text ∨ ∃ p : Parts, p.Divide text := by
  rw [merge] at found
  rcases located : locate text with e | parts
  · rw [located] at found
    cases found
  · exact sectioned_of_locate located

/-- A block that stands between texts without a marker is their section. -/
theorem IsBlock.divide {before block after : List Char} (isBlock : IsBlock block)
    (closed : IsClosed before) (freeBefore : IsFree before) (freeAfter : IsFree after) :
    (Parts.mk before block after).Divide (before ++ block ++ after) where
  whole := by
    rw [lines_append (closed.append (.inr isBlock.complete)), lines_append closed]
  before := freeBefore
  inside := isBlock.marked
  after := freeAfter

theorem isClosed_intercalate {texts : List (List Char)} (closed : ∀ t ∈ texts, IsClosed t) :
    IsClosed (['\n'].intercalate texts) := by
  induction texts with
  | nil => exact .inl rfl
  | cons first rest ih =>
    have closedRest := ih fun t member => closed t (List.mem_cons_of_mem _ member)
    rcases rest with _ | ⟨second, rest⟩
    · simpa [List.intercalate] using closed first List.mem_cons_self
    · have feed : IsClosed ['\n'] := .inr rfl
      exact (closed first List.mem_cons_self).append (feed.append closedRest)

theorem isClosed_flatMap_lineOf (ls : List String) : IsClosed (ls.flatMap lineOf) := by
  induction ls with
  | nil => exact .inl rfl
  | cons l ls ih =>
    have line : IsClosed (lineOf l) := .inr (endsLine_append (a := l.toList) rfl)
    rw [List.flatMap_cons]
    exact line.append ih

/-- Whatever the records hold, the last line of the stanzas is complete. -/
theorem isClosed_stanzas (inv : Inventory) : IsClosed (stanzas inv) := by
  refine isClosed_intercalate fun t member => ?_
  obtain ⟨h, _, rfl⟩ := List.mem_map.mp member
  exact isClosed_flatMap_lineOf _

/-- Where the block of an inventory stands in a text that can be stripped, no record of it holds a
marker line, and neither does the text around it. -/
theorem free_of_strip_block {inv : Inventory} {before after rest : List Char} (closed : IsClosed before)
    (stripped : strip (before ++ block inv ++ after) = .ok rest) :
    IsFree before ∧ IsFree (stanzas inv) ∧ IsFree after := by
  have blockClosed : IsClosed (block inv) := .inr (endsLine_append (b := lineOf endMarker) (by decide))
  have whole : lines (before ++ block inv ++ after) = lines before ++
      (lineOf beginMarker :: lines (stanzas inv) ++ [lineOf endMarker]) ++ lines after := by
    rw [lines_append (closed.append blockClosed), lines_append closed, block,
      lines_framed (isClosed_stanzas inv)]
  rcases located : locate (before ++ block inv ++ after) with e | _ | p
  · rw [strip, located] at stripped
    cases stripped
  · have free := locate_eq_none_iff.mp located
    have marker := free (lineOf beginMarker) (by rw [whole]; simp)
    exact absurd marker (by decide)
  · obtain ⟨q, divide, _⟩ := divide_of_locate located
    have one := divide.countMarkers
    rw [whole] at one
    exact (countMarkers_eq_one_iff (by decide) (by decide)).mp one

/-- What is left without the section has no marker. -/
theorem Parts.Divide.isFree_rest {p : Parts} {text : List Char} (divide : p.Divide text) :
    IsFree (dropSeparator p.before ++ p.after) :=
  IsFree.append (isClosed_dropSeparator divide.closed) (isFree_dropSeparator divide.before) divide.after

theorem isFree_nil : IsFree [] := by
  intro line member
  cases member

theorem IsBlock.divide_lead {text block : List Char} (isBlock : IsBlock block) (free : IsFree text) :
    (Parts.mk (lead text) block []).Divide (lead text ++ block) := by
  have divided := isBlock.divide (isClosed_lead text) (isFree_lead free) isFree_nil
  rwa [List.append_nil] at divided

theorem prefix_closeLine (text : List Char) : text <+: closeLine text := by
  rw [closeLine]
  split
  · exact List.prefix_refl text
  · exact List.prefix_append text ['\n']

theorem prefix_lead (text : List Char) : text <+: lead text := by
  rw [lead]
  split
  · rename_i empty
    exact List.prefix_nil.mpr empty
  · exact (prefix_closeLine text).trans (List.prefix_append _ _)

theorem strip_strip {text rest : List Char} (found : strip text = .ok rest) :
    strip rest = .ok rest ∧ IsFree rest := by
  have free : IsFree rest := by
    rcases located : locate text with e | _ | p
    · rw [strip, located] at found
      cases found
    · have none := locate_eq_none_iff.mp located
      obtain rfl : text = rest := by simpa [strip_of_free none] using found
      exact none
    · obtain ⟨p, divide, _⟩ := divide_of_locate located
      obtain rfl : dropSeparator p.before ++ p.after = rest := by
        simpa [strip_of_divide divide] using found
      exact divide.isFree_rest
  exact ⟨strip_of_free free, free⟩

/-- A block merged into a text without a section stands at its end. -/
theorem IsBlock.merged_of_free {text block : List Char} (isBlock : IsBlock block) (free : IsFree text) :
    (∀ other, merge (lead text ++ block) other = merge text other) ∧
      strip (lead text ++ block) = .ok (closeLine text) := by
  have divided := isBlock.divide_lead free
  refine ⟨fun other => ?_, ?_⟩
  · rw [merge_of_divide divided, merge_of_free free, List.append_nil]
  · rw [strip_of_divide divided, dropSeparator_lead, List.append_nil]

/-- A block merged into a text with a section stands in its place. -/
theorem IsBlock.merged_of_divide {p : Parts} {text block : List Char} (isBlock : IsBlock block)
    (divide : p.Divide text) :
    (∀ other, merge (p.before ++ block ++ p.after) other = merge text other) ∧
      strip (p.before ++ block ++ p.after) = strip text := by
  have divided := isBlock.divide divide.closed divide.before divide.after
  refine ⟨fun other => ?_, ?_⟩
  · rw [merge_of_divide divided, merge_of_divide divide]
  · rw [strip_of_divide divided, strip_of_divide divide]

/-- A block merged into a text is replaced by whatever is merged next and taken out again by
`strip`; around it stands the text as it was, or before it where there was no section. `strip` takes
out all that a text has of a section. -/
theorem merge_strip_algebra {text block merged : List Char} (isBlock : IsBlock block)
    (found : merge text block = .ok merged) (next : List Char) :
    merge merged next = merge text next ∧ merge merged block = .ok merged ∧
      ((∃ p : Parts, p.Divide text ∧ merged = p.before ++ block ++ p.after ∧
          strip merged = strip text) ∨
        (IsFree text ∧ merged = lead text ++ block ∧ text <+: merged ∧
          strip merged = .ok (if text = [] ∨ endsLine text then text else text ++ ['\n']))) ∧
      ∃ rest, strip text = .ok rest ∧ strip rest = .ok rest ∧ IsFree rest := by
  rcases free_or_divide_of_merge found with free | ⟨p, divide⟩
  · obtain rfl : lead text ++ block = merged := by simpa [merge_of_free free] using found
    obtain ⟨again, stripped⟩ := isBlock.merged_of_free free
    refine ⟨again next, (again block).trans found, .inr ⟨free, rfl, ?_, ?_⟩,
      text, strip_of_free free, strip_of_free free, free⟩
    · exact (prefix_lead text).trans (List.prefix_append _ block)
    · rw [stripped, closeLine]
  · obtain rfl : p.before ++ block ++ p.after = merged := by
      simpa [merge_of_divide divide] using found
    obtain ⟨again, stripped⟩ := isBlock.merged_of_divide divide
    exact ⟨again next, (again block).trans found, .inl ⟨p, divide, rfl, stripped⟩,
      _, strip_of_divide divide, strip_strip (strip_of_divide divide)⟩

theorem merge_strip_algebra_of_user_text :
    let text := "Host a".toList
    let block := lineOf beginMarker ++ [] ++ lineOf endMarker
    let next := lineOf beginMarker ++ lineOf "Host b" ++ lineOf endMarker
    ∃ merged, merge text block = .ok merged ∧ merge merged next = merge text next ∧
      strip merged = .ok (text ++ ['\n']) := by
  intro text block next
  have isBlock : IsBlock block := .of_free (.inl rfl) isFree_nil
  have free : IsFree text := by decide
  have found := merge_of_free free block
  obtain ⟨again, _, ⟨p, divide, _⟩ | ⟨_, _, _, stripped⟩, _⟩ := merge_strip_algebra isBlock found next
  · have none := locate_eq_none_iff.mpr free
    rw [locate_of_divide divide] at none
    cases none
  · exact ⟨_, found, again, stripped⟩

end Keyring.Managed

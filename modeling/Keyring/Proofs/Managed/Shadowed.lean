import Keyring.Proofs.Inventory.Consistency
import Keyring.Proofs.Managed.Merge
import Keyring.Proofs.Managed.Stanzas

/-!
# Shadowed aliases

The conflicts of a text are the aliases of the inventory that its own lines declare:
the lines outside the section, read one by one. What `strip` and `merge` do to the
empty line before the section changes no line that declares anything, so merging a
block leaves the conflicts as they are.
-/

namespace Keyring.Managed

open Text

/-- A line of the text that is not in its section. -/
def IsOutside (text line : List Char) : Prop :=
  (IsFree text ∧ line ∈ lines text) ∨
    ∃ p : Parts, p.Divide text ∧ (line ∈ lines p.before ∨ line ∈ lines p.after)

/-- A line that declares a host: the keyword in any case, a blank or an equals sign, and after
these words of which one is the host's name, with quotes at its ends or without. -/
def Declares (line : List Char) (label : String) : Prop :=
  ∃ keyword mark rest word, trim line = keyword ++ mark :: rest ∧
    (∀ c ∈ keyword, endsKeyword c = false) ∧ endsKeyword mark = true ∧
    keyword.map Char.toLower = "host".toList ∧
    word ≠ [] ∧ IsRun isBlank word rest ∧ IsCore (· = '"') label.toList word

theorem sectioned_of_strip {text rest : List Char} (stripped : strip text = .ok rest) :
    IsFree text ∨ ∃ p : Parts, p.Divide text := by
  rw [strip] at stripped
  rcases located : locate text with e | found
  · rw [located] at stripped
    cases stripped
  · exact sectioned_of_locate located

theorem mem_patternsOf_iff {line : List Char} {label : String} :
    label ∈ patternsOf line ↔ Declares line label := by
  constructor
  · intro member
    rw [patternsOf] at member
    split at member
    · rename_i keyword rest found
      split at member
      · rename_i isHost
        obtain ⟨mark, whole, solid, separates⟩ := cut_eq_some_iff.mp found
        obtain ⟨word, inside, rfl⟩ := List.mem_map.mp member
        obtain ⟨some_, run⟩ := mem_words_iff.mp inside
        have bare : IsCore (· = '"') (unquoted word) word := dropEnds_eq_iff.mp rfl
        exact ⟨keyword, mark, rest, word, whole, solid, separates, by simpa [isHostKeyword] using isHost,
          some_, run, by rwa [String.toList_ofList]⟩
      · cases member
    · cases member
  · rintro ⟨keyword, mark, rest, word, whole, solid, separates, isHost, some_, run, bare⟩
    have found : cut endsKeyword (trim line) = some (keyword, rest) :=
      cut_eq_some_iff.mpr ⟨mark, whole, solid, separates⟩
    have named : unquoted word = label.toList := dropEnds_eq_iff.mpr bare
    rw [patternsOf, found]
    simp only [isHostKeyword, isHost, decide_true, ↓reduceIte]
    exact List.mem_map.mpr ⟨word, mem_words_iff.mpr ⟨some_, run⟩, by rw [named, String.ofList_toList]⟩

def declared (text : List Char) : List String := (lines text).flatMap patternsOf

theorem declared_append {a : List Char} (closed : IsClosed a) (b : List Char) :
    declared (a ++ b) = declared a ++ declared b := by
  rw [declared, lines_append closed, List.flatMap_append]
  rfl

theorem declared_feed : declared ['\n'] = [] := by decide

/-- The line that is dropped before the section declares nothing. -/
theorem declared_dropSeparator (text : List Char) : declared (dropSeparator text) = declared text := by
  rcases dropSeparator_cases text with same | ⟨ends, whole⟩
  · rw [same]
  · conv_rhs => rw [whole]
    rw [declared_append (.inr ends), declared_feed, List.append_nil]

theorem patternsOf_append_feed (line : List Char) : patternsOf (line ++ ['\n']) = patternsOf line := by
  rw [patternsOf, trim_append_feed]
  rfl

/-- A line feed that completes the last line leaves what it declares. -/
theorem declared_closeLine (text : List Char) : declared (closeLine text) = declared text := by
  rw [closeLine]
  split
  · rfl
  · rename_i open_
    obtain ⟨front, last, found, completed⟩ := lines_complete open_
    simp only [declared, found, completed, List.flatMap_append, List.flatMap_singleton,
      patternsOf_append_feed]

/-- The hosts of the inventory among those that are declared, each once and in order. -/
def shadowed (inv : Inventory) (labels : List String) : List String :=
  (labels.filter fun label => (inv.findHost? label).isSome).eraseDups.mergeSort fun a b => decide (a ≤ b)

theorem conflicts_of_strip {text rest : List Char} (stripped : strip text = .ok rest) (inv : Inventory) :
    conflicts text inv = .ok (shadowed inv (declared rest)) := by
  rw [conflicts, stripped]
  rfl

theorem nodup_eraseDups {α : Type} [BEq α] [LawfulBEq α] (l : List α) : l.eraseDups.Nodup := by
  induction length : l.length using Nat.strongRecOn generalizing l with
  | ind n ih =>
    cases l with
    | nil => simp
    | cons a l =>
      have shorter : (l.filter fun b => !b == a).length < n := by
        rw [← length]
        exact Nat.lt_succ_of_le (List.length_filter_le _ _)
      rw [List.eraseDups_cons, List.nodup_cons]
      exact ⟨by simp [List.mem_eraseDups], ih _ shorter _ rfl⟩

theorem pairwise_shadowed (inv : Inventory) (labels : List String) :
    (shadowed inv labels).Pairwise (· < ·) :=
  pairwise_mergeSort_of_distinct (by simpa using nodup_eraseDups _)

theorem mem_shadowed_iff {inv : Inventory} {labels : List String} {label : String} :
    label ∈ shadowed inv labels ↔ (∃ h ∈ inv.hosts, h.label = label) ∧ label ∈ labels := by
  rw [shadowed, List.mem_mergeSort, List.mem_eraseDups, List.mem_filter, and_comm]
  refine and_congr_left fun _ => ?_
  rw [Option.isSome_iff_ne_none, ne_eq, Inventory.findHost?_eq_none_iff, not_not, Inventory.hostLabels,
    List.mem_map]

/-- What is left without the section declares what the lines outside it declare. -/
theorem mem_declared_iff {text rest : List Char} (stripped : strip text = .ok rest) {label : String} :
    label ∈ declared rest ↔ ∃ line, IsOutside text line ∧ Declares line label := by
  have ofLines (ls : List (List Char)) :
      label ∈ ls.flatMap patternsOf ↔ ∃ line ∈ ls, Declares line label := by
    simp only [List.mem_flatMap, mem_patternsOf_iff]
  rcases sectioned_of_strip stripped with free | ⟨p, divide⟩
  · obtain rfl : text = rest := by simpa [strip_of_free free] using stripped
    have outside (line : List Char) : IsOutside text line ↔ line ∈ lines text :=
      ⟨fun out => out.elim (·.2) fun ⟨_, divide, _⟩ => absurd divide (free.not_divide _),
        fun member => .inl ⟨free, member⟩⟩
    simp only [outside, declared, ofLines]
  · obtain rfl : dropSeparator p.before ++ p.after = rest := by
      simpa [strip_of_divide divide] using stripped
    have outside (line : List Char) : IsOutside text line ↔ line ∈ lines p.before ++ lines p.after := by
      rw [List.mem_append]
      constructor
      · rintro (⟨free, -⟩ | ⟨q, divided, member⟩)
        · exact absurd divide (free.not_divide p)
        · rwa [divided.unique divide] at member
      · exact fun member => .inr ⟨p, divide, member⟩
    rw [declared_append (isClosed_dropSeparator divide.closed), declared_dropSeparator, declared,
      declared, ← List.flatMap_append, ofLines]
    simp only [outside]

/-- A merged block leaves what is declared around it. -/
theorem declared_of_merge {text block merged rest : List Char} (isBlock : IsBlock block)
    (found : merge text block = .ok merged) (stripped : strip text = .ok rest) :
    ∃ rest', strip merged = .ok rest' ∧ declared rest' = declared rest := by
  rcases sectioned_of_strip stripped with free | ⟨p, divide⟩
  · obtain rfl : lead text ++ block = merged := by simpa [merge_of_free free] using found
    obtain rfl : text = rest := by simpa [strip_of_free free] using stripped
    exact ⟨_, (isBlock.merged_of_free free).2, declared_closeLine text⟩
  · obtain rfl : p.before ++ block ++ p.after = merged := by
      simpa [merge_of_divide divide] using found
    exact ⟨rest, (isBlock.merged_of_divide divide).2.trans stripped, rfl⟩

/-- In a text with at most one section, the conflicts are the aliases of the inventory that lines
outside the section declare, in strict order; merging a block changes none of them. -/
theorem conflicts_tell_shadowed {text : List Char} (inv : Inventory)
    (sectioned : IsFree text ∨ ∃ p : Parts, p.Divide text) :
    ∃ found, conflicts text inv = .ok found ∧ found.Pairwise (· < ·) ∧
      (∀ label, label ∈ found ↔
        (∃ h ∈ inv.hosts, h.label = label) ∧ ∃ line, IsOutside text line ∧ Declares line label) ∧
      ∀ block merged, IsBlock block → merge text block = .ok merged →
        conflicts merged inv = .ok found := by
  obtain ⟨rest, stripped⟩ : ∃ rest, strip text = .ok rest := by
    rcases sectioned with free | ⟨p, divide⟩
    · exact ⟨_, strip_of_free free⟩
    · exact ⟨_, strip_of_divide divide⟩
  refine ⟨_, conflicts_of_strip stripped inv, pairwise_shadowed inv _, fun label => ?_, ?_⟩
  · rw [mem_shadowed_iff, mem_declared_iff stripped]
  · intro block merged isBlock found
    obtain ⟨rest', stripped', same⟩ := declared_of_merge isBlock found stripped
    rw [conflicts_of_strip stripped', same]

/-- The first line declares `web`, with a tab, quotes and a carriage return; `db` stands in the section. -/
def quotedWeb : List Char := "HOST=\"web\"\t*.lan\r\n\n".toList ++
  (lineOf beginMarker ++ lineOf "Host db" ++ lineOf endMarker)

theorem conflicts_of_quotedWeb :
    let host (label : String) : Host := ⟨label, "example.org", "root", 22, none, [], ⟨0, 0⟩, none, none, none⟩
    let inv := { Inventory.empty with hosts := [host "db", host "web"] }
    ∃ found, conflicts quotedWeb inv = .ok found ∧ "web" ∈ found ∧ "db" ∉ found ∧
      ∀ merged, merge quotedWeb (lineOf beginMarker ++ [] ++ lineOf endMarker) = .ok merged →
        conflicts merged inv = .ok found := by
  intro host inv
  have located : locate quotedWeb = .ok (some ⟨19, 103⟩) := by decide +kernel
  obtain ⟨found, told, -, exact_, kept⟩ := conflicts_tell_shadowed inv (sectioned_of_locate located)
  have stripped : strip quotedWeb = .ok "HOST=\"web\"\t*.lan\r\n".toList := by decide +kernel
  have declares (label : String) : (∃ line, IsOutside quotedWeb line ∧ Declares line label) ↔
      label ∈ ["web", "*.lan"] := (mem_declared_iff stripped).symm
  have noMarkers : IsBlock (lineOf beginMarker ++ [] ++ lineOf endMarker) := .of_free (.inl rfl) isFree_nil
  refine ⟨found, told, (exact_ "web").mpr ⟨⟨host "web", by simp [inv], rfl⟩, (declares "web").mpr (by simp)⟩,
    fun listed => ?_, fun merged => kept _ merged noMarkers⟩
  exact absurd ((declares "db").mp ((exact_ "db").mp listed).2) (by decide)

end Keyring.Managed

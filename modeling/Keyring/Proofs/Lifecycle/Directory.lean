import Keyring.Layout
import Keyring.Name
import Keyring.Proofs.Disk.Canonical
import Keyring.Proofs.Disk.Files

/-!
# The directory of keys

The files of keys lie side by side in one directory, named for the keys. Only
directories and files come there, never links (`Tidy`), so a name in it leads to
a place of its own.
-/

namespace Keyring

namespace Name

/-- A text of the characters of names that starts like a name is a name on a disk. -/
theorem isName_onDisk {text : String} (plain : ∀ c ∈ text.toList, isNameChar c = true)
    (starts : text.toList.head?.any isAlphanumeric = true)
    (short : Text.utf8Length text ≤ Disk.longestName) : Disk.IsName text where
  some := by
    rintro rfl
    cases starts
  notHere := by
    rintro rfl
    exact absurd starts (by decide)
  notUp := by
    rintro rfl
    exact absurd starts (by decide)
  short := short
  plain := fun slash => absurd (plain _ slash) (by decide)
  noNul := fun nul => absurd (plain _ nul) (by decide)

variable {name : String}

theorem isName_iff : isName name = true ↔ Text.utf8Length name ≤ maxLength ∧
    (∀ c ∈ name.toList, isNameChar c = true) ∧ name.toList.head?.any isAlphanumeric = true ∧
      name.toList.getLast?.any isAlphanumeric = true := by
  simp [isName, and_assoc]

theorem isName_private (h : isName name = true) : Disk.IsName name := by
  obtain ⟨short, plain, starts, _⟩ := isName_iff.mp h
  have room : maxLength ≤ Disk.longestName := by decide
  exact isName_onDisk plain starts (by omega)

theorem isName_public (h : isName name = true) : Disk.IsName (name ++ ".pub") := by
  obtain ⟨short, plain, starts, _⟩ := isName_iff.mp h
  have suffix : Text.utf8Length ".pub" = 4 := by decide
  have room : maxLength + 4 ≤ Disk.longestName := by decide
  refine isName_onDisk ?_ ?_ ?_
  · intro c member
    rw [String.toList_append] at member
    rcases List.mem_append.mp member with member | member
    · exact plain c member
    · have suffixPlain : ".pub".toList.all isNameChar = true := by decide
      exact List.all_eq_true.mp suffixPlain c member
  · rcases chars : name.toList with _ | ⟨c, rest⟩
    · rw [chars] at starts
      cases starts
    · rw [chars] at starts
      rw [String.toList_append, chars]
      exact starts
  · rw [Text.utf8Length_append]
    omega

end Name

namespace Layout

variable {vault : Path} {name : String}

theorem keysDir_getLast? (vault : Path) : (keysDir vault).toList.getLast? = some 's' := by
  have relative : Path.isAbsolute "keys" = false := by decide
  rw [keysDir, Path.join, if_neg (by simp [relative])]
  split <;> simp

theorem keysDir_ne_empty (vault : Path) : keysDir vault ≠ "" := by
  intro empty
  have last := keysDir_getLast? vault
  rw [empty] at last
  cases last

theorem withoutEndSlashes_keysDir (vault : Path) :
    Disk.withoutEndSlashes (keysDir vault) = keysDir vault := by
  refine Disk.withoutEndSlashes_of_noSlash ?_
  rw [keysDir_getLast?]
  decide

theorem segments_keysDir (vault : Path) : ∃ front, (keysDir vault).segments = front ++ ["keys".toList] := by
  obtain ⟨front, last, whole⟩ := Path.exists_last_segment (keysDir vault)
  have ends : ∃ names, (keysDir vault).names = names ++ ["keys"] := by
    rcases Path.names_join vault (show '/' ∉ "keys".toList by decide) with whole | ⟨names, _, whole⟩
    · exact ⟨_, whole⟩
    · exact ⟨_, whole⟩
  obtain ⟨names, ends⟩ := ends
  rw [Path.names, whole, List.map_append] at ends
  have same : String.ofList last = "keys" := by simpa using (List.append_inj' ends rfl).2
  refine ⟨front, ?_⟩
  rw [whole, ← same, String.toList_ofList]

theorem up_of_keysDir (up : ['.', '.'] ∈ (keysDir vault).segments) : ".." ∈ vault.names := by
  have member : ".." ∈ (keysDir vault).names := List.mem_map.mpr ⟨_, up, by decide⟩
  rcases Path.names_join vault (show '/' ∉ "keys".toList by decide) with whole | ⟨front, ends, whole⟩
  · rw [keysDir, whole] at member
    simpa using member
  · rw [keysDir, whole] at member
    rw [ends]
    exact List.mem_append_left _ (by simpa using member)

/-- A path of a key file starts with that of the directory. -/
theorem join_keysDir {name : String} (plain : '/' ∉ name.toList) :
    (keysDir vault).join name = keysDir vault ++ "/" ++ name := by
  have some : (keysDir vault).isEmpty = false := by simpa using keysDir_ne_empty vault
  rw [Path.join, if_neg (by simp [Path.isAbsolute_of_plain plain]),
    if_neg (by simp [some, keysDir_getLast?])]

theorem privateFile_append_pub {name : String} (plain : '/' ∉ name.toList) :
    privateFile vault name ++ ".pub" = publicFile vault name := by
  have plain' : '/' ∉ (name ++ ".pub").toList := by
    rw [String.toList_append]
    intro slash
    exact (List.mem_append.mp slash).elim plain (by decide)
  rw [privateFile, publicFile, join_keysDir plain, join_keysDir plain', String.append_assoc]

theorem isVoid_of_isName (isName : Disk.IsName name) : Path.isVoid name.toList = false := by
  rw [Path.isVoid, Bool.or_eq_false_iff, decide_eq_false_iff_not, decide_eq_false_iff_not]
  exact ⟨fun h => isName.some (String.toList_inj.mp h), fun h => isName.notHere (String.toList_inj.mp h)⟩

theorem parent?_keyFile (isName : Disk.IsName name) : Path.parent? ((keysDir vault).join name) = some (keysDir vault) := by
  obtain ⟨front, whole⟩ := segments_keysDir vault
  have row : String.ofList (Text.joined (keysDir vault).segments) = keysDir vault := by
    rw [Path.segments, Text.joined_pieces, String.ofList_toList]
  have trimmed : Path.trimSegments (keysDir vault).segments = (keysDir vault).segments := by
    rw [whole, Path.trimSegments_of_last (by decide)]
  have ends : (keysDir vault).segments.getLast? ≠ some [] := by
    rw [whole, List.getLast?_concat]
    decide
  have plain : ∀ segment ∈ (keysDir vault).segments, ∀ c ∈ segment, decide (c = '/') = false :=
    fun segment member c inside => (Text.mem_of_mem_pieces member c inside).2
  have some : (keysDir vault).segments ≠ [] := by
    rw [whole]
    simp
  have found := Path.parent?_join_row some plain trimmed ends isName.plain (isVoid_of_isName isName)
  rwa [row] at found

/-- A file in the directory of keys stands in that directory, as its writer sees it. -/
theorem parentOf_keyFile (isName : Disk.IsName name) : Disk.parentOf ((keysDir vault).join name) = keysDir vault := by
  rw [Disk.parentOf, parent?_keyFile isName, Option.getD_some]

end Layout

namespace Disk

variable {vault : Path} {d d' : Disk} {at_ keys : Place} {name : String} {through : Bool} {e : Entry}

/-- Wherever the directory of keys may come to be, nothing is in it. -/
def EmptyVault (vault : Path) (d : Disk) : Prop :=
  ∀ d' keys name, Evolves d d' → d'.place true (Layout.keysDir vault) = .ok keys →
    d.entryAt (keys ++ [name]) = none

/-- Wherever the directory of keys may come to be, there is no link in it, and no file before the
directory is there. -/
def Tidy (vault : Path) (d : Disk) : Prop :=
  ∀ d' keys name e, Evolves d d' → d'.place true (Layout.keysDir vault) = .ok keys →
    d.entryAt (keys ++ [name]) = some e →
      e.isDirectory = true ∨ e.isFile = true ∧ d.place true (Layout.keysDir vault) = .ok keys

theorem EmptyVault.tidy (empty : EmptyVault vault d) : Tidy vault d := by
  intro d' keys name e evolves led entry
  rw [empty d' keys name evolves led] at entry
  cases entry

/-- A vault is empty if nothing is below the place that its path leads to. -/
theorem emptyVault_of_place (led : d.place true vault = .ok at_)
    (nothing : ∀ below, below ≠ [] → d.entryAt (at_ ++ below) = none) : EmptyVault vault d := by
  intro d' keys name evolves led'
  have faultless : pathFault? vault = none := (place_eq_ok_iff.mp led).1
  have isName : IsName "keys" := Name.isName_private (by decide)
  obtain ⟨here, ledVault, _, inVault⟩ := place_of_join isName led' faultless
  rw [evolves.place led] at ledVault
  cases ledVault
  have keysAt : keys = at_ ++ ["keys"] := by
    refine inVault fun t link => ?_
    rw [evolves.links, nothing _ (by simp)] at link
    cases link
  rw [keysAt, List.append_assoc]
  exact nothing _ (by simp)

/-- A later state is tidy if its new files are where the directory of keys is by now. -/
theorem Tidy.later (tidy : Tidy vault d) (evolves : Evolves d d')
    (new : ∀ keys name e, d'.entryAt (keys ++ [name]) = some e → e.isFile = true →
      d.entryAt (keys ++ [name]) ≠ none ∨ d'.place true (Layout.keysDir vault) = .ok keys) :
    Tidy vault d' := by
  intro d'' keys name e evolves' led entry
  have before := tidy d'' keys name
  cases e with
  | directory => exact .inl rfl
  | link t =>
    rw [evolves.links] at entry
    rcases before _ (evolves.trans evolves') led entry with isDir | ⟨isFile, _⟩
    · cases isDir
    · cases isFile
  | file content mode modified =>
    refine .inr ⟨rfl, ?_⟩
    rcases new keys name _ entry rfl with there | ledNow
    · obtain ⟨e, there⟩ := Option.ne_none_iff_exists'.mp there
      rcases before _ (evolves.trans evolves') led there with isDir | ⟨_, ledBefore⟩
      · cases e with
        | directory m =>
          obtain ⟨m', found⟩ := isDirectoryAt_iff.mp (evolves.directories _ (isDirectoryAt_of_entryAt there))
          rw [entry] at found
          cases found
        | file => cases isDir
        | link => cases isDir
      · exact evolves.place ledBefore
    · exact ledNow

theorem Tidy.notLink (tidy : Tidy vault d) (evolves : Evolves d d')
    (led : d'.place true (Layout.keysDir vault) = .ok keys) (t : String) :
    d.entryAt (keys ++ [name]) ≠ some (.link t) := by
  intro entry
  rcases tidy d' keys name _ evolves led entry with isDir | ⟨isFile, _⟩
  · cases isDir
  · cases isFile

/-- A name in the directory of keys leads to its place there. -/
theorem Tidy.place_of_join (tidy : Tidy vault d) (evolves : Evolves d d') (isName : IsName name)
    (led : d'.place through ((Layout.keysDir vault).join name) = .ok at_) :
    ∃ keys, d'.place true (Layout.keysDir vault) = .ok keys ∧ d'.isDirectoryAt keys = true ∧
      at_ = keys ++ [name] := by
  have faultless : pathFault? (Layout.keysDir vault) = none := by
    have whole := (place_eq_ok_iff.mp led).1
    rw [Layout.join_keysDir isName.plain, String.append_assoc] at whole
    exact pathFault?_of_append (Layout.keysDir_ne_empty vault) whole
  obtain ⟨keys, led', isDir, inKeys⟩ := Disk.place_of_join isName led faultless
  refine ⟨keys, led', isDir, inKeys fun t => ?_⟩
  exact mt (evolves.links _ t).mp (tidy.notLink evolves led' t)

/-- A file that a name in the directory of keys comes to lead to is one that it led to before. -/
theorem Tidy.place_of_file (tidy : Tidy vault d) (sound : d.WellFormed) (evolves : Evolves d d')
    (isName : IsName name) (led : d'.place true ((Layout.keysDir vault).join name) = .ok at_)
    (entry : d.entryAt at_ = some e) (isFile : e.isFile = true) :
    d.place true ((Layout.keysDir vault).join name) = .ok at_ := by
  obtain ⟨keys, ledKeys, _, rfl⟩ := tidy.place_of_join evolves isName led
  have ledBefore : d.place true (Layout.keysDir vault) = .ok keys := by
    rcases tidy d' keys name e evolves ledKeys entry with isDir | ⟨_, led⟩
    · cases e with
      | directory => cases isFile
      | file => cases isDir
      | link => cases isDir
    · exact led
  exact place_join ledBefore (sound.isDirectoryAt_of_child entry) isName (notLink_of_file entry isFile)
    (place_eq_ok_iff.mp led).1

/-- A name in the directory of keys does not lead to a link. -/
theorem Tidy.place_true (tidy : Tidy vault d) (sound : d.WellFormed) (isName : IsName name)
    (led : d.place false ((Layout.keysDir vault).join name) = .ok at_) :
    (∀ t, d.entryAt at_ ≠ some (.link t)) ∧ d.place true ((Layout.keysDir vault).join name) = .ok at_ := by
  obtain ⟨keys, ledKeys, _, rfl⟩ := tidy.place_of_join (.refl sound) isName led
  have notLink : ∀ t, d.entryAt (keys ++ [name]) ≠ some (.link t) := tidy.notLink (.refl sound) ledKeys
  exact ⟨notLink, place_true_of_notLink led notLink⟩

/-- Where making the directory of keys succeeds there is one. -/
theorem isDirectory_of_ensureKeysDir (sound : d.WellFormed)
    (made : outcome (ensureDirectory (Layout.keysDir vault)) d = (.ok (), d')) :
    d'.isDirectory (Layout.keysDir vault) = true := by
  have isDir := isDirectory_of_ensureDirectory sound (Layout.keysDir_ne_empty vault) made
  rwa [Layout.withoutEndSlashes_keysDir] at isDir

end Disk

end Keyring

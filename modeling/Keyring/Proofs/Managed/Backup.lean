import Keyring.Layout
import Keyring.Proofs.Disk.Canonical
import Keyring.Proofs.Disk.Files

/-!
# Where the former text is kept

The file of backups stands beside a configuration: it has the same parent, and
another last name.
-/

namespace Keyring.Managed

open Disk Text

variable {d d' : Disk} {p : Path} {at_ : Place}

def backupName (p : Path) : String := (Path.fileName? p).getD "" ++ ".vault-bak"

theorem plain_backupName (p : Path) : '/' ∉ (backupName p).toList := by
  rw [backupName, String.toList_append, List.mem_append, not_or]
  refine ⟨?_, by decide⟩
  rcases found : Path.fileName? p with _ | name
  · simp
  · exact Path.plain_of_fileName? found

theorem length_backupName (p : Path) :
    (backupName p).toList.length = ((Path.fileName? p).getD "").toList.length + 10 := by
  rw [backupName, String.toList_append, List.length_append]
  rfl

theorem backupName_ne {s : String} (p : Path) (short : s.toList.length < 10) : backupName p ≠ s := by
  rintro rfl
  have long := length_backupName p
  omega

theorem exists_join_backupFile (p : Path) : ∃ q, Layout.backupFile p = Path.join q (backupName p) := by
  rw [Layout.backupFile, Path.withFileName]
  split
  · exact ⟨_, rfl⟩
  · exact ⟨_, rfl⟩

theorem names_backupFile (p : Path) : ∃ front, Path.names (Layout.backupFile p) = front ++ [backupName p] := by
  obtain ⟨q, joined⟩ := exists_join_backupFile p
  rw [joined]
  rcases Path.names_join q (plain_backupName p) with whole | ⟨front, _, whole⟩
  · exact ⟨_, whole⟩
  · exact ⟨_, whole⟩

theorem checkFileName_backupFile (p : Path) : checkFileName (Layout.backupFile p) = .ok () := by
  obtain ⟨front, whole⟩ := names_backupFile p
  exact checkFileName_of_names whole (backupName_ne p (by decide)) (backupName_ne p (by decide))
    (backupName_ne p (by decide))

theorem fileName?_of_segments {front : List (List Char)} {last : List Char} (whole : p.segments = front ++ [last])
    (isNamed : Path.isVoid last = false) (notUp : last ≠ ['.', '.']) :
    Path.fileName? p = some (String.ofList last) := by
  rw [Path.fileName?, whole, Path.trimSegments_of_last isNamed, List.getLast?_concat]
  simp [isNamed, notUp]

theorem parentOf_backupFile (named : checkFileName p = .ok ()) : parentOf (Layout.backupFile p) = parentOf p := by
  obtain ⟨front, last, whole, isNamed, notUp⟩ := checkFileName_eq_ok_iff.mp named
  have isNamed' : Path.isVoid (backupName p).toList = false := by
    have long := length_backupName p
    simp only [Path.isVoid, Bool.or_eq_false_iff, decide_eq_false_iff_not]
    refine ⟨fun empty => ?_, fun dot => ?_⟩
    · rw [empty, List.length_nil] at long
      omega
    · rw [dot, List.length_singleton] at long
      omega
  obtain ⟨q, found⟩ : ∃ q, Path.parent? p = some q := ⟨_, Path.parent?_of_segments whole isNamed⟩
  have joined : Layout.backupFile p = Path.join q (backupName p) := by
    rw [Layout.backupFile, Path.withFileName]
    split
    · rw [found, Option.getD_some]
      rfl
    · rename_i nameless
      rw [fileName?_of_segments whole isNamed notUp] at nameless
      cases nameless
  rw [parentOf, parentOf, joined, Path.parent?_join whole isNamed found (plain_backupName p) isNamed', found]

/-- Where a configuration is, there is a directory for the file of its backups. -/
theorem backup_isDirectory {through : Bool} (named : checkFileName p = .ok ()) (led : d.place through p = .ok at_) :
    parentOf (Layout.backupFile p) = "" ∨ d.isDirectory (parentOf (Layout.backupFile p)) = true := by
  rw [parentOf_backupFile named]
  exact parent_isDirectory named led

theorem getLast?_place (named : checkFileName p = .ok ()) (led : d.place false p = .ok at_) :
    at_.getLast? = Path.fileName? p := by
  obtain ⟨front, last, whole, isNamed, notUp⟩ := checkFileName_eq_ok_iff.mp named
  obtain ⟨mid, -, -, reached⟩ := place_in_parent whole isNamed notUp led
  obtain rfl := reached.resolve_right nofun
  rw [fileName?_of_segments whole isNamed notUp, List.getLast?_concat]

theorem fileName?_backupFile (p : Path) : Path.fileName? (Layout.backupFile p) = some (backupName p) := by
  obtain ⟨front, last, whole, isNamed, notUp⟩ := checkFileName_eq_ok_iff.mp (checkFileName_backupFile p)
  obtain ⟨front', names⟩ := names_backupFile p
  rw [Path.names, whole, List.map_append] at names
  obtain ⟨_, same⟩ := List.append_inj' names rfl
  rw [fileName?_of_segments whole isNamed notUp]
  exact congrArg some (List.cons_eq_cons.mp same).1

/-- Where a configuration is, the file of its backups is on no disk. -/
theorem place_backupFile_ne (named : checkFileName p = .ok ()) (led : d.place false p = .ok at_) :
    d'.place false (Layout.backupFile p) ≠ .ok at_ := by
  intro led'
  have name := getLast?_place named led
  rw [getLast?_place (checkFileName_backupFile p) led', fileName?_backupFile] at name
  have long := length_backupName p
  rw [← name, Option.getD_some] at long
  omega

end Keyring.Managed

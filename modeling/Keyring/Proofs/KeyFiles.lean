import Keyring.Proofs.Lifecycle.Directory
import Keyring.Proofs.Name

/-!
# The files of a key

Names are safe as names of files. A path is the child of another (`Path.IsChild`) if it has
that one's components and a name more, and leads on every disk right below where the other
one leads. Whatever the vault, the files of a name are two children of the directory of keys
(`Layout.names_are_safe`). Those of two names may still meet, if one name is the other with
`.pub` after it (`Layout.publicFile_eq_privateFile_iff`).
-/

namespace Keyring

namespace Path

variable {dir child : Path} {name : String}

/-- A path of a name in a directory. -/
structure IsChild (child dir : Path) (name : String) : Prop where
  parent : child.parent? = some dir
  named : child.fileName? = some name
  components : child.components = dir.components ++ [name]
  /-- Wherever it leads is right below the directory, if that is a link too. -/
  led : ∀ (d : Disk) (at_ : Place), d.place false child = .ok at_ ↔ Disk.pathFault? child = none ∧
    ∃ keys, d.place true dir = .ok keys ∧ d.isDirectoryAt keys = true ∧ at_ = keys ++ [name]

theorem IsChild.inside (isChild : IsChild child dir name) : child.startsWith dir = true := by
  rw [startsWith, List.isPrefixOf_iff_prefix, isChild.components]
  exact List.prefix_append _ _

theorem IsChild.ne (isChild : IsChild child dir name) : child ≠ dir := by
  rintro rfl
  have longer := congrArg List.length isChild.components
  rw [List.length_append, List.length_singleton] at longer
  omega

theorem IsChild.ne_parent (isChild : IsChild child dir name) : dir.parent? ≠ some child := by
  intro above
  obtain ⟨back, up⟩ := front_of_parent? above
  obtain ⟨back', down⟩ := front_of_parent? isChild.parent
  have nothing : child.length + back.length + back'.length = child.length := by
    rw [← String.length_append, ← String.length_append, ← up, ← down]
  have none_ : back = "" := String.length_eq_zero_iff.mp (by omega)
  rw [none_, String.append_empty] at up
  exact isChild.ne up.symm

end Path

namespace Layout

open Keyring.Path

variable {vault : Path} {name other : String}

theorem segments_keyFile (isName : Disk.IsName name) :
    ((keysDir vault).join name).segments = (keysDir vault).segments ++ [name.toList] := by
  rw [join_keysDir isName.plain, segments_append_slash, segments_of_plain isName.plain]

theorem components_keyFile (isName : Disk.IsName name) :
    ((keysDir vault).join name).components = (keysDir vault).components ++ [name] := by
  have starts : ((keysDir vault).segments ++ [name.toList]).head? = (keysDir vault).segments.head? := by
    obtain ⟨front, whole⟩ := segments_keysDir vault
    rw [whole]
    cases front with
    | nil => rfl
    | cons first front => rfl
  rw [components, components, segments_keyFile isName, isAbsolute_join _ isName.plain, starts]
  simp [isVoid_of_isName isName]

theorem fileName?_keyFile (isName : Disk.IsName name) : Path.fileName? ((keysDir vault).join name) = some name := by
  have isVoid := isVoid_of_isName isName
  have notUp : name.toList ≠ ['.', '.'] := fun up => isName.notUp (String.toList_inj.mp up)
  rw [fileName?, segments_keyFile isName, trimSegments_of_last isVoid, List.getLast?_concat]
  simp [isVoid, notUp]

theorem place_keyFile_iff (isName : Disk.IsName name) (d : Disk) (at_ : Place) :
    d.place false ((keysDir vault).join name) = .ok at_ ↔ Disk.pathFault? ((keysDir vault).join name) = none ∧
      ∃ keys, d.place true (keysDir vault) = .ok keys ∧ d.isDirectoryAt keys = true ∧ at_ = keys ++ [name] := by
  constructor
  · intro led
    have faultless := (Disk.place_eq_ok_iff.mp led).1
    have front : Disk.pathFault? (keysDir vault) = none := by
      rw [join_keysDir isName.plain, String.append_assoc] at faultless
      exact Disk.pathFault?_of_append (keysDir_ne_empty vault) faultless
    obtain ⟨keys, ledKeys, isDir, -⟩ := Disk.place_of_join isName led front
    exact ⟨faultless, keys, ledKeys, isDir, Disk.eq_of_place_false_join led ledKeys isDir isName⟩
  · rintro ⟨faultless, keys, ledKeys, isDir, rfl⟩
    exact Disk.place_false_join ledKeys isDir isName faultless

theorem isChild_keyFile (isName : Disk.IsName name) : IsChild ((keysDir vault).join name) (keysDir vault) name where
  parent := parent?_keyFile isName
  named := fileName?_keyFile isName
  components := components_keyFile isName
  led := place_keyFile_iff isName

theorem isChild_privateFile (vault : Path) (named : Name.isName name = true) :
    IsChild (privateFile vault name) (keysDir vault) name :=
  isChild_keyFile (Name.isName_private named)

theorem isChild_publicFile (vault : Path) (named : Name.isName name = true) :
    IsChild (publicFile vault name) (keysDir vault) (name ++ ".pub") :=
  isChild_keyFile (Name.isName_public named)

/-- The public half of one key is the private one of another just where that has its name with `.pub`
after it. -/
theorem publicFile_eq_privateFile_iff (named : Name.isName name = true) (named' : Name.isName other = true) :
    publicFile vault name = privateFile vault other ↔ other = name ++ ".pub" := by
  constructor
  · intro same
    have found := (isChild_publicFile vault named).named
    rw [same, (isChild_privateFile vault named').named] at found
    exact Option.some.inj found
  · rintro rfl
    rfl

theorem privateFile_ne_publicFile (named : Name.isName name = true) :
    privateFile vault name ≠ publicFile vault name := by
  intro same
  have longer := congrArg String.length ((publicFile_eq_privateFile_iff named named).mp same.symm)
  rw [String.length_append] at longer
  have suffix : ".pub".length = 4 := rfl
  omega

/-- The names that pass are the safe ones, and their files are two children of the directory of keys:
not that itself, nor its parent, nor outside. -/
theorem names_are_safe (vault : Path) (name : String) :
    (Name.check name = .ok () ↔ Name.IsSafe name) ∧
    (Name.check name = .error (.invalidName name) ↔ ¬Name.IsSafe name) ∧
    (Name.IsSafe name ↔ Text.utf8Length name ≤ Name.maxLength ∧ name.toList ∈ Name.pattern) ∧
    (Name.check name = .ok () → IsChild (privateFile vault name) (keysDir vault) name ∧
      IsChild (publicFile vault name) (keysDir vault) (name ++ ".pub") ∧
      privateFile vault name ≠ publicFile vault name ∧
      ∀ file ∈ [privateFile vault name, publicFile vault name], file ≠ keysDir vault ∧
        (keysDir vault).parent? ≠ some file ∧ file.startsWith (keysDir vault) = true) := by
  have passes : Name.check name = .ok () ↔ Name.IsSafe name :=
    Name.check_eq_ok_iff.trans Name.isName_iff_isSafe
  refine ⟨passes, ?_, Name.isName_iff_isSafe.symm.trans Name.isName_iff_mem_pattern, ?_⟩
  · rw [Name.check_eq_error_iff, ← Name.isName_iff_isSafe]
    simp
  · intro passed
    have named := Name.check_eq_ok_iff.mp passed
    have private_ := isChild_privateFile vault named
    have public_ := isChild_publicFile vault named
    refine ⟨private_, public_, privateFile_ne_publicFile named, ?_⟩
    intro file member
    rcases List.mem_pair.mp member with rfl | rfl
    · exact ⟨private_.ne, private_.ne_parent, private_.inside⟩
    · exact ⟨public_.ne, public_.ne_parent, public_.inside⟩

theorem names_are_safe_of_points : Name.check "gh-deploy_2024.x" = .ok () ∧
    IsChild (privateFile "/home/u/.ssh-vault" "gh-deploy_2024.x") (keysDir "/home/u/.ssh-vault") "gh-deploy_2024.x" := by
  have passed : Name.check "gh-deploy_2024.x" = .ok () := by decide
  have files := (names_are_safe "/home/u/.ssh-vault" "gh-deploy_2024.x").2.2.2 passed
  exact ⟨passed, files.1⟩

end Layout

end Keyring

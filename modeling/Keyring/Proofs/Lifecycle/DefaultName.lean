import Keyring.Proofs.Lifecycle.Making
import Keyring.Proofs.Lifecycle.NewName
import Keyring.Proofs.Lifecycle.Safety

/-!
# Rotations without a name

The making of a key is refused for its name before anything is done: where it is no
name, where a key has it, or where a file of the pair is there (`generate_blames_iff`).
The name that a rotation chooses for itself is no key's name and no private file's. It
can still be too long, and a public file may lie there alone; then the rotation fails
(`rotate_blames_iff`).
-/

namespace Keyring

open Time

namespace Error

/-- The name of a new key is to blame. -/
def blamesName : Error → Bool
  | .invalidName _ | .keyExists _ | .keyFileExists _ => true
  | _ => false

theorem blamesName_of_blamesMaterial {e : Error} (material : e.blamesMaterial = true) : e.blamesName = false := by
  cases e <;> first | rfl | cases material

theorem blamesName_of_late {e : Error} (late : e.blamesOutside = true ∨ e = .dateOverflow) : e.blamesName = false := by
  obtain outside | rfl := late
  · exact blamesName_of_blamesMaterial (blamesMaterial_of_blamesOutside outside)
  · rfl

end Error

namespace Lifecycle

open Inventory Layout Op

variable {vault : Path} {req : NewKey} {now : Instant} {w : World} {inv : Inventory} {d : Disk}

theorem outcome_generate_refused {e : Error} (refused : checkNew w.inventory w.disk vault req = .error e) :
    outcome (generate vault req now) w = (.error e, w) := by
  unfold generate
  rw [outcome_bind, outcome_get]
  dsimp only
  rw [outcome_bind, outcome_ofExcept, refused]

/-- Once the checks are passed nothing fails but files, the tool and what it leaves, and the counting of
days. -/
theorem refusedOnly_generate {bits : Option Nat} (checked : checkNew w.inventory w.disk vault req = .ok bits) :
    RefusedOnly (fun e => e.blamesOutside = true ∨ e = .dateOverflow) (outcome (generate vault req now) w).1 := by
  have made := failsOnly_makeFiles vault req bits w
  have kept := keepsInventory_makeFiles vault req bits w
  rw [generate_eq, outcome_bind, outcome_makePair checked]
  rcases run : outcome (makeFiles vault req bits) w with ⟨e | pub, w'⟩
  · rw [run] at made
    exact .error (.inl (made e rfl))
  · rw [run] at kept
    have still : w'.inventory.findKey? req.name = none := by
      rw [show w'.inventory = w.inventory from kept]
      exact findKey?_of_checkNew checked
    exact (refusedOnly_enter still fun _ => rfl).mono fun e overflow => .inr overflow

/-- What is left to refuse for a name that no key and no private file has. -/
theorem checkNew_of_free (free : inv.findKey? req.name = none)
    (noFile : d.exists_ (privateFile vault req.name) = false) :
    checkNew inv d vault req =
      if Name.isName req.name then do
        let bits ← req.algorithm.chosenBits req.bits
        checkFree d (publicFile vault req.name)
        return bits
      else .error (.invalidName req.name) := by
  unfold checkNew Name.check
  split
  · rw [free]
    cases req.algorithm.chosenBits req.bits with
    | error e => rfl
    | ok bits =>
      have passes : checkFree d (privateFile vault req.name) = .ok () := by simp [checkFree, noFile]
      simp only [bind, Except.bind, passes]
      rfl
  · rfl

/-- Such a name is refused where it is no name, or has a file of a public half already. -/
theorem checkNew_blames_iff (free : inv.findKey? req.name = none)
    (noFile : d.exists_ (privateFile vault req.name) = false) {e : Error} (blames : e.blamesName = true) :
    checkNew inv d vault req = .error e ↔
      e = .invalidName req.name ∧ Name.isName req.name = false ∨
      e = .keyFileExists (publicFile vault req.name) ∧ Name.isName req.name = true ∧
        d.exists_ (publicFile vault req.name) = true ∧
        ∃ bits, req.algorithm.chosenBits req.bits = .ok bits := by
  rw [checkNew_of_free free noFile]
  by_cases isName : Name.isName req.name = true
  · simp only [isName, ↓reduceIte, Bool.true_eq_false, and_false, false_or, true_and]
    cases chosen : req.algorithm.chosenBits req.bits with
    | error reason =>
      have material := req.algorithm.refusedOnly_chosenBits req.bits reason chosen
      have late := Error.blamesName_of_blamesMaterial material
      refine ⟨?_, fun ⟨_, _, bits, made⟩ => by cases made⟩
      rintro ⟨⟩
      rw [blames] at late
      cases late
    | ok bits =>
      by_cases there : d.exists_ (publicFile vault req.name) = true
      · have refused : checkFree d (publicFile vault req.name) = .error (.keyFileExists (publicFile vault req.name)) :=
          if_pos there
        simp only [bind, Except.bind, refused, there]
        refine ⟨?_, fun ⟨is, _⟩ => is ▸ rfl⟩
        rintro ⟨⟩
        exact ⟨rfl, trivial, bits, rfl⟩
      · have passes : checkFree d (publicFile vault req.name) = .ok () := if_neg there
        simp only [bind, Except.bind, passes]
        exact ⟨nofun, fun ⟨_, is, _⟩ => absurd is there⟩
  · have notName : Name.isName req.name = false := by simpa using isName
    simp only [notName, Bool.false_eq_true, ↓reduceIte, and_true, false_and, and_false, or_false]
    constructor
    · rintro ⟨⟩
      rfl
    · rintro rfl
      rfl

/-- A making is refused for a name just where the checks refuse it. -/
theorem generate_blames_iff {e : Error} (blames : e.blamesName = true) :
    (outcome (generate vault req now) w).1 = .error e ↔ checkNew w.inventory w.disk vault req = .error e := by
  cases checked : checkNew w.inventory w.disk vault req with
  | error reason =>
    rw [outcome_generate_refused checked]
    constructor
    · rintro ⟨⟩
      rfl
    · rintro ⟨⟩
      rfl
  | ok bits =>
    constructor
    · intro failed
      rw [Error.blamesName_of_late (refusedOnly_generate checked e failed)] at blames
      cases blames
    · nofun

theorem name_successor (old : Key) (req : Rotation) (name : String) : (successor old req name).name = name :=
  rfl

/-- Where the old key is in use, a rotation fails as the making of the new key does. -/
theorem rotate_error_iff {req : Rotation} {old : Key} (active : w.inventory.activeKey req.name = .ok old)
    {name : String} (named : req.newName.getD (rotationName w.inventory w.disk vault old.name now) = name)
    {e : Error} : (outcome (rotate vault req now) w).1 = .error e ↔
      (outcome (generate vault (successor old req name) now) w).1 = .error e := by
  rw [outcome_rotate active named]
  rcases outcome (generate vault (successor old req name) now) w with ⟨reason | k, w'⟩
  · constructor
    · rintro ⟨⟩
      rfl
    · rintro ⟨⟩
      rfl
  · constructor
    · rintro ⟨⟩
    · rintro ⟨⟩

/-- A rotation of an active key that chooses the new name itself, in a year of four digits, chooses one
that no key and no private file has, and that is a name unless it is too long. For the name it fails
just where that is too long, and where a file of its public half is there already. -/
theorem rotate_blames_iff {req : Rotation} {old : Key} (active : w.inventory.activeKey req.name = .ok old)
    (isName : Name.isName old.name = true) (year : 0 ≤ now.date.year ∧ now.date.year ≤ 9999)
    (unnamed : req.newName = none) {name : String}
    (chosen : rotationName w.inventory w.disk vault old.name now = name) :
    name ∉ w.inventory.keyNames ∧ w.disk.exists_ (privateFile vault name) = false ∧
      (Name.isName name = true ↔ Text.utf8Length name ≤ Name.maxLength) ∧
      ∀ e, e.blamesName = true → ((outcome (rotate vault req now) w).1 = .error e ↔
        e = .invalidName name ∧ Name.maxLength < Text.utf8Length name ∨
        e = .keyFileExists (publicFile vault name) ∧ Text.utf8Length name ≤ Name.maxLength ∧
          w.disk.exists_ (publicFile vault name) = true ∧
          ∃ bits, (successor old req name).algorithm.chosenBits (successor old req name).bits = .ok bits) := by
  obtain ⟨n, -, found, free, -⟩ := rotationName_spec w.inventory w.disk vault old.name now
  rw [← found, chosen, isTaken, Bool.or_eq_false_iff] at free
  obtain ⟨noKey, noFile⟩ := free
  have noKey : w.inventory.findKey? name = none := by simpa using noKey
  have dashed : IsEnding ("-" ++ now.dateStamp) :=
    (isEnding_dateStamp year).after (List.forall_mem_singleton.mpr rfl)
  have ending : IsEnding ("-" ++ now.dateStamp ++ numbering n) := dashed.numbered n
  have length : Name.isName name = true ↔ Text.utf8Length name ≤ Name.maxLength := by
    have whole : name = old.name ++ ("-" ++ now.dateStamp ++ numbering n) := by
      rw [← chosen, found, numberedName_eq]
      simp only [String.append_assoc]
    rw [whole]
    exact ending.isName_append isName
  have notListed : name ∉ w.inventory.keyNames := findKey?_eq_none_iff.mp noKey
  have named : req.newName.getD (rotationName w.inventory w.disk vault old.name now) = name := by
    rw [unnamed]
    exact chosen
  have long : Name.isName name = false ↔ Name.maxLength < Text.utf8Length name := by
    rw [← Bool.not_eq_true, length, Nat.not_le]
  refine ⟨notListed, noFile, length, ?_⟩
  intro e blames
  have newKey : w.inventory.findKey? (successor old req name).name = none := noKey
  have newFile : w.disk.exists_ (privateFile vault (successor old req name).name) = false := noFile
  rw [rotate_error_iff active named, generate_blames_iff blames,
    checkNew_blames_iff newKey newFile blames, name_successor, length, long]

/-- A fresh world in which the key `work` has been made, and where a public file lies alone under the
name that its follower would get. -/
def leftoverWorld : World :=
  let made := (Request.generate ⟨"work", .ed25519, none, none, none, none, []⟩ ⟨0, 0⟩).after "vault"
    Request.freshWorld
  { made with disk := made.disk.put ["vault", "keys", "work-19700101.pub"] (.file (.text "") 0o644 ⟨0, 0⟩) }

/-- The key `work` is to be followed by one like it. -/
def followWork : Rotation := ⟨"work", none, none, none, none, none⟩

/-- Nothing is in the way of the name there but that file, and the rotation is refused. -/
theorem rotate_blames_iff_of_leftoverWorld :
    (∃ old ∈ leftoverWorld.inventory.keys, leftoverWorld.inventory.activeKey followWork.name = .ok old ∧
        Name.isName old.name = true) ∧
      rotationName leftoverWorld.inventory leftoverWorld.disk "vault" "work" ⟨0, 0⟩ = "work-19700101" ∧
      (outcome (rotate "vault" followWork ⟨0, 0⟩) leftoverWorld).1 =
        .error (.keyFileExists "vault/keys/work-19700101.pub") := by
  have facts : (∃ old ∈ leftoverWorld.inventory.keys, leftoverWorld.inventory.activeKey followWork.name = .ok old ∧
      old.name = "work" ∧ old.algorithm = .ed25519) ∧
      rotationName leftoverWorld.inventory leftoverWorld.disk "vault" "work" ⟨0, 0⟩ = "work-19700101" ∧
      leftoverWorld.disk.exists_ "vault/keys/work-19700101.pub" = true ∧
      publicFile "vault" "work-19700101" = "vault/keys/work-19700101.pub" ∧
      Text.utf8Length "work-19700101" ≤ Name.maxLength := by decide +kernel
  obtain ⟨⟨old, member, active, named, algorithm⟩, chosen, there, path, short⟩ := facts
  have isName : Name.isName old.name = true := by
    rw [named]
    decide
  have year : 0 ≤ (Instant.mk 0 0).date.year ∧ (Instant.mk 0 0).date.year ≤ 9999 := by decide
  refine ⟨⟨old, member, active, isName⟩, chosen, ?_⟩
  rw [← named] at chosen
  have blames := (rotate_blames_iff active isName year rfl chosen).2.2.2
    (.keyFileExists "vault/keys/work-19700101.pub") rfl
  rw [path] at blames
  refine blames.mpr (.inr ⟨rfl, short, there, none, ?_⟩)
  simp [successor, followWork, algorithm, Algorithm.chosenBits]

end Lifecycle

end Keyring

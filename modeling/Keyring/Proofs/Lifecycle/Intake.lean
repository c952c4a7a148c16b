import Keyring.Proofs.Inventory.Dates
import Keyring.Proofs.Inventory.Fidelity
import Keyring.Proofs.Lifecycle.Inheritance
import Keyring.Proofs.Lifecycle.Making
import Keyring.Proofs.Lifecycle.PublicHalf

/-!
# Keys that are taken in

A key whose data are on record is refused before anything is written. Any other comes on record as its
public half says it, with the path where that is kept, and nothing else is written than a copy of it
(`Intake`). The recorded path leads to a text that is read as the key on record, unless the copy has
severed it.
-/

namespace Keyring.Lifecycle

open Op Disk Time

variable {vault : Path} {req : ImportedKey} {now : Instant} {w w' t : World} {line : String}
  {found : Option Path} {pub : PublicKey} {k : Key}

theorem checkNewMaterial_eq_ok_iff {inv : Inventory} :
    checkNewMaterial inv pub = .ok () ↔ pub.fingerprint ∉ inv.keys.map (·.fingerprint) := by
  rw [checkNewMaterial, Inventory.keyByFingerprint?]
  cases found : inv.keys.find? (·.fingerprint = pub.fingerprint) with
  | none =>
    have unknown := List.find?_eq_none.mp found
    simpa using unknown
  | some other =>
    have same := List.find?_some found
    have known := List.mem_of_find?_eq_some found
    simp only [reduceCtorEq, false_iff, not_not, List.mem_map]
    exact ⟨other, known, by simpa using same⟩

/-- A key that is on record is named when it is refused. -/
theorem checkNewMaterial_of_known {inv : Inventory} (known : pub.fingerprint ∈ inv.keys.map (·.fingerprint)) :
    ∃ other ∈ inv.keys, other.fingerprint = pub.fingerprint ∧
      checkNewMaterial inv pub = .error (.duplicateMaterial other.name) := by
  rw [checkNewMaterial, Inventory.keyByFingerprint?]
  cases found : inv.keys.find? (·.fingerprint = pub.fingerprint) with
  | none =>
    obtain ⟨other, member, same⟩ := List.mem_map.mp known
    exact absurd (List.find?_eq_none.mp found other member) (by simpa using same)
  | some other =>
    have same := List.find?_some found
    exact ⟨other, List.mem_of_find?_eq_some found, by simpa using same, rfl⟩

/-- A request that passes its checks and supplies key data on record is refused, and leaves records and
files as they are. -/
theorem outcome_importKey_of_known (checked : checkImport w.inventory w.disk req = .ok ())
    (supplies : Supplies req w line found t) (read : PublicKey.ofText line = .ok pub)
    (known : pub.fingerprint ∈ w.inventory.keys.map (·.fingerprint)) :
    ∃ other ∈ w.inventory.keys, other.fingerprint = pub.fingerprint ∧
      outcome (importKey vault req now) w = (.error (.duplicateMaterial other.name), t) := by
  have asked := supplies_iff.mp supplies
  rw [← supplies.inventory_eq] at known ⊢
  obtain ⟨other, member, same, refused⟩ := checkNewMaterial_of_known known
  refine ⟨other, member, same, ?_⟩
  simp only [importKey, outcome_bind, outcome_get, Op.outcome_ofExcept, checked, asked, read, Op.outcome_ask,
    refused]

/-- How a key comes on record that is taken in: as what its public half says, which is read again from
the path on record or was severed by the copy, and with the dates that were asked for. -/
structure Intake (vault : Path) (req : ImportedKey) (now : Instant) (w : World) (k : Key) (w' : World) :
    Prop where
  added : w'.inventory = { w.inventory with keys := w.inventory.keys ++ [k] }
  new : k.fingerprint ∉ w.inventory.keys.map (·.fingerprint)
  name : k.name = req.name
  unmanaged : k.managed = false
  createdAt : k.createdAt ≤ now
  expiresAt : (req.ttlDays = none ∧ k.expiresAt = none) ∨
    ∃ days due, req.ttlDays = some days ∧ k.createdAt.plusDays? days = some due ∧ k.expiresAt = some due
  half : ∃ line found t pub path, Supplies req w line found t ∧ PublicKey.ofText line = .ok pub ∧
    k.Shows pub ∧ Shelves vault req.name pub w.disk found path w'.disk ∧
    k.publicFile = w'.disk.canonicalOrSame path ∧
    (w'.disk.LeadsToKey path pub ∨ found = none ∧ Severed path w.disk w'.disk)
  files : ∀ at_, w'.disk.entryAt at_ = w.disk.entryAt at_ ∨
    (w.disk.entryAt at_ = none ∧ w'.disk.entryAt at_ = some (.directory directoryMode)) ∨
    ∃ paved modified, Paves (Layout.keysDir vault) w.disk paved ∧
      paved.place false (Layout.publicFile vault req.name) = .ok at_ ∧
      w'.disk.entryAt at_ = some (.file (.text (k.publicLine ++ "\n")) privateFileMode modified)

theorem intake_of_importKey (sound : w.disk.WellFormed)
    (run : outcome (importKey vault req now) w = (.ok k, w')) : Intake vault req now w k w' := by
  obtain ⟨pub, path, t', createdAt, due, taken, aged, counted, rfl, rfl⟩ := of_importKey_ok run
  obtain ⟨checked, -, line, found, t, asked, read, new, kept⟩ := of_takePair_ok taken
  have supplies := supplies_iff.mpr asked
  have disk := supplies.disk_eq
  have inventory := supplies.inventory_eq
  have keptInventory := keepsInventory_keepPublicFile vault req.name pub found t
  rw [kept] at keptInventory
  have same : t'.inventory = w.inventory := keptInventory.trans inventory
  have shelves := shelves_of_keepPublicFile (disk ▸ sound) (isName_of_checkImport checked) kept
  rw [disk] at shelves
  rw [inventory] at new
  have source : ∀ p, found = some p → ∃ text, w.disk.readText p = .ok text ∧ PublicKey.ofText text = .ok pub := by
    rintro p rfl
    cases supplies with
    | beside _ _ readable => exact ⟨_, readable, read⟩
  refine {
    added := by rw [same]
    new := checkNewMaterial_eq_ok_iff.mp new
    name := rfl
    unmanaged := rfl
    createdAt := creationTime_le aged
    expiresAt := expiryFrom_eq_ok_iff.mp counted
    half := ⟨line, found, t, pub, path, supplies, read, ⟨rfl, rfl, rfl, rfl⟩, shelves, rfl,
      shelves.leadsToKey sound (PublicKey.sound_of_ofText read) source⟩
    files := fun at_ => ?_ }
  exact (shelves.entry at_).imp_right (Or.imp_right And.right)

/-- Taking a key in puts no key data on record a second time: where they are on record it is refused, and
nothing has been written then. A key that is taken in comes on record as what was read, and nothing else is
written than a copy of its public half. -/
theorem import_records_once (sound : w.disk.WellFormed) :
    ((w.inventory.keys.map (·.fingerprint)).Nodup →
      ((outcome (importKey vault req now) w).2.inventory.keys.map (·.fingerprint)).Nodup) ∧
    (∀ line found t pub, checkImport w.inventory w.disk req = .ok () → Supplies req w line found t →
      PublicKey.ofText line = .ok pub → pub.fingerprint ∈ w.inventory.keys.map (·.fingerprint) →
      ∃ other ∈ w.inventory.keys, other.fingerprint = pub.fingerprint ∧
        outcome (importKey vault req now) w = (.error (.duplicateMaterial other.name), t) ∧
        t.disk = w.disk ∧ t.inventory = w.inventory) ∧
    ∀ k w', outcome (importKey vault req now) w = (.ok k, w') → Intake vault req now w k w' := by
  refine ⟨fun distinct => ?_, fun line found t pub checked supplies read known => ?_,
    fun k w' => intake_of_importKey sound⟩
  · rcases run : outcome (importKey vault req now) w with ⟨e | k, w'⟩
    · have kept := importKey_commits vault req now w.inventory w rfl
      rw [run] at kept
      dsimp only at kept ⊢
      rwa [kept]
    · have intake := intake_of_importKey sound run
      dsimp only
      rw [intake.added, List.map_append, List.map_singleton, ← List.concat_eq_append]
      exact .concat intake.new distinct
  · obtain ⟨other, member, same, refused⟩ := outcome_importKey_of_known checked supplies read known
    exact ⟨other, member, same, refused, supplies.disk_eq, supplies.inventory_eq⟩

/-- A vault whose path goes through the link that stands where the copy for the key `work` will be. -/
def loopVault : Path := "v/keys/work.pub/.."

def loopWorld : World :=
  let entries := [(["v"], .directory 0o700), (["v", "keys"], .directory 0o700),
    (["v", "keys", "work.pub"], .link "."), (["id"], .file (.text "PRIVATE\n") 0o600 ⟨0, 0⟩)]
  { Request.freshWorld with disk := { emptyDisk with entries := entries } }

/-- The public half of the key `id`. -/
def givenLine : String :=
  "ssh-ed25519 AAAAC3NzaC1lZDI1NTE5AAAAIDw8PDw8PDw8PDw8PDw8PDw8PDw8PDw8PDw8PDw8PDw8 bob@desk"

/-- That key is to be taken in under a name. -/
def givenKey (name : String) : ImportedKey := ⟨name, "id", some givenLine, some 30, []⟩

/-- That world when the key is on record. -/
def loopedWorld : World := (outcome (importKey loopVault (givenKey "work") ⟨0, 0⟩) loopWorld).2

/-- The copy is written, and severs its own path, which comes on record; a second time the key is refused. -/
theorem import_records_once_of_loopWorld : loopWorld.disk.WellFormed ∧ loopedWorld.disk.WellFormed ∧
    (∃ k, outcome (importKey loopVault (givenKey "work") ⟨0, 0⟩) loopWorld = (.ok k, loopedWorld) ∧
      Intake loopVault (givenKey "work") ⟨0, 0⟩ loopWorld k loopedWorld ∧
      k.publicFile = "v/keys/work.pub/../keys/work.pub" ∧
      loopedWorld.disk.readText k.publicFile = .error .notDirectory ∧
      loopedWorld.disk.readText "v/keys/work.pub" = .ok (k.publicLine ++ "\n")) ∧
    ∃ t, outcome (importKey loopVault (givenKey "again") ⟨0, 0⟩) loopedWorld =
        (.error (.duplicateMaterial "work"), t) ∧ t.disk = loopedWorld.disk ∧
      t.inventory = loopedWorld.inventory := by
  have sound : loopWorld.disk.WellFormed := wellFormed_of_entries (by decide +kernel)
  have facts : (outcome (importKey loopVault (givenKey "work") ⟨0, 0⟩) loopWorld).1.isOk = true ∧
      (∀ k ∈ loopedWorld.inventory.keys, k.name = "work" ∧
        (k.publicFile = "v/keys/work.pub/../keys/work.pub" ∧
          loopedWorld.disk.readText k.publicFile = .error .notDirectory ∧
          loopedWorld.disk.readText "v/keys/work.pub" = .ok (k.publicLine ++ "\n"))) ∧
      checkImport loopedWorld.inventory loopedWorld.disk (givenKey "again") = .ok () := by
    decide +kernel
  obtain ⟨done, recorded, checked⟩ := facts
  rcases run : outcome (importKey loopVault (givenKey "work") ⟨0, 0⟩) loopWorld with ⟨_ | k, w'⟩
  · rw [run] at done
    cases done
  obtain rfl : loopedWorld = w' := by rw [loopedWorld, run]
  have intake := (import_records_once sound).2.2 k loopedWorld run
  have member : k ∈ loopedWorld.inventory.keys := by simp [intake.added]
  obtain ⟨line, found, t, pub, path, supplies, read, shows_, shelves, -⟩ := intake.half
  have sound' := shelves.wellFormed sound
  refine ⟨sound, sound', ⟨k, rfl, intake, (recorded k member).2⟩, ?_⟩
  have known : pub.fingerprint ∈ loopedWorld.inventory.keys.map (·.fingerprint) :=
    List.mem_map.mpr ⟨k, member, shows_.fingerprint⟩
  cases supplies with
  | given is =>
    obtain ⟨other, inside, -, refused, same⟩ :=
      (import_records_once sound').2.1 line none loopedWorld pub checked (.given is) read known
    rw [(recorded other inside).1] at refused
    exact ⟨loopedWorld, refused, same⟩
  | beside ungiven => cases ungiven
  | derived ungiven => cases ungiven

end Keyring.Lifecycle

import Keyring.Proofs.Inventory.Integrity
import Keyring.Proofs.Lifecycle.Recorded

/-!
# The files of other keys

In a vault that was empty at first, keys are made, taken in, followed by others
and removed, in any order (`Run`). Each step leaves the files of all keys that
stay on record as they were, but for two kinds of steps (`Harms`): a key is taken
in, and the copy that is kept of its public half comes to the place of such a file;
or a key is removed that has the same file on record. Then the file is written over
or deleted.
-/

namespace Keyring

open Disk Inventory Lifecycle

namespace Request

/-- The requests that make, take in, follow and remove keys. -/
def handlesKeys : Request → Bool
  | generate .. | importKey .. | rotate .. | removeKey .. => true
  | _ => false

end Request

namespace Lifecycle

/-- The inventories and disks that are reached from an empty inventory and an empty vault. Only these
are handed on: time goes on, tools come and go, and their replies may be others each time. -/
inductive Run (vault : Path) : Inventory → Disk → Prop where
  | start {d : Disk} : d.WellFormed → EmptyVault vault d → Run vault .empty d
  | step {w : World} {r : Request} : Run vault w.inventory w.disk → r.handlesKeys = true →
      Run vault (r.after vault w).inventory (r.after vault w).disk
  | wait {inv : Inventory} {d : Disk} (now : Time.Instant) : Run vault inv d →
      Run vault inv { d with clock := now }

/-- What every step keeps: the directory of keys is tidy, and no path on record ends at a link. -/
structure Guarded (vault : Path) (inv : Inventory) (d : Disk) : Prop where
  sound : d.WellFormed
  tidy : Tidy vault d
  unlinked : ∀ f ∈ inv.files, Unlinked d f
  consistent : inv.Consistent

variable {vault f : Path} {inv inv' : Inventory} {d d' : Disk} {w : World} {names : List String}
  {at_ : Place} {e : Entry}

theorem later_wait (sound : d.WellFormed) (now : Time.Instant) {touched : Place → Prop} :
    Later touched d { d with clock := now } := by
  refine ⟨⟨?_, ?_⟩, rfl, fun at_ isDir => isDir, fun at_ t => Iff.rfl, fun at_ _ e _ => Iff.rfl⟩
  · intro at_ e entry notRoot
    obtain ⟨parent, name, rfl, isDir, isName⟩ := (sound.fits at_ e entry notRoot).named
    exact ⟨parent, name, rfl, isDir, isName⟩
  · exact fun at_ t entry => sound.targets at_ t entry

theorem Guarded.wait (guarded : Guarded vault inv d) (now : Time.Instant) :
    Guarded vault inv { d with clock := now } := by
  have evolves : Evolves d { d with clock := now } := later_wait guarded.sound now
  refine ⟨evolves.sound, guarded.tidy.later evolves ?_, ?_, guarded.consistent⟩
  · intro keys name e entry _
    have before : d.entryAt (keys ++ [name]) = some e := entry
    exact .inl (by simp [before])
  · exact fun f member => (guarded.unlinked f member).later evolves

/-- Keys that are made come on record under their names in the directory of keys. -/
theorem Guarded.made (guarded : Guarded vault inv d) (writes : Writes vault names d d')
    (recorded : inv' = inv ∨ Records vault inv inv') (consistent : inv'.Consistent) :
    Guarded vault inv' d' ∧ Evolves d d' := by
  refine ⟨⟨writes.later.sound, writes.tidy, fun f member => ?_, consistent⟩, writes.later.evolves⟩
  have old : ∀ f ∈ inv.files, Unlinked d' f :=
    fun f member => (guarded.unlinked f member).later writes.later.evolves
  obtain rfl | ⟨name, isName, added⟩ := recorded
  · exact old f member
  · rw [added] at member
    rcases List.mem_append.mp member with member | member
    · exact old f member
    · rcases List.mem_cons.mp member with rfl | member
      · exact writes.tidy.unlinked (Name.isName_private isName)
      · rw [List.mem_singleton.mp member]
        exact writes.tidy.unlinked (Name.isName_public isName)

/-- The canonical paths of a key that was taken in come on record. -/
theorem Guarded.takenIn {req : ImportedKey} {k : Key} {w' : World} (guarded : Guarded vault w.inventory w.disk)
    (taken : TakenIn vault req w k w')
    (writes : Writes vault (copyNames w.disk req) w.disk w'.disk) (consistent : w'.inventory.Consistent) :
    Guarded vault w'.inventory w'.disk ∧ Evolves w.disk w'.disk := by
  obtain ⟨privateFile, publicFile⟩ := taken.unlinked guarded.sound guarded.tidy writes
  refine ⟨⟨writes.later.sound, writes.tidy, fun f member => ?_, consistent⟩, writes.later.evolves⟩
  obtain ⟨k', known, isFile⟩ := mem_files_iff.mp member
  rw [taken.keys] at known
  rcases List.mem_append.mp known with known | new
  · exact (guarded.unlinked f (mem_files_iff.mpr ⟨k', known, isFile⟩)).later writes.later.evolves
  · rw [List.mem_singleton.mp new] at isFile
    rcases isFile with rfl | rfl
    · exact privateFile
    · exact publicFile

theorem Guarded.doomed {name : String} {force deleteFiles : Bool} (guarded : Guarded vault w.inventory w.disk) :
    ∀ f ∈ doomed vault w name force deleteFiles, Unlinked w.disk f :=
  fun f member => guarded.unlinked f (mem_files_of_doomed member)

/-- Each step keeps the directory tidy and the paths on record away from links, and leads to a later
state of the disk. -/
theorem Guarded.step {r : Request} (guarded : Guarded vault w.inventory w.disk) (handles : r.handlesKeys = true) :
    Guarded vault (r.after vault w).inventory (r.after vault w).disk ∧ Evolves w.disk (r.after vault w).disk := by
  have consistent : (r.after vault w).inventory.Consistent := (r.effect vault w).consistent guarded.consistent
  cases r with
  | generate req now =>
    simp only [Request.after, Request.run, outcome_discard] at consistent ⊢
    have writes := generate_writes vault req now w guarded.sound guarded.tidy
    exact guarded.made writes (generate_records vault req now _).inventory_or consistent
  | rotate req now =>
    simp only [Request.after, Request.run, outcome_discard] at consistent ⊢
    have recorded := (rotate_records vault req now w.inventory).inventory_or
    obtain disk | ⟨made, disk⟩ := rotate_files vault req now w
    · have nothing : Writes vault [] w.disk (outcome (rotate vault req now) w).2.disk := by
        rw [disk]
        exact .refl guarded.sound guarded.tidy
      exact guarded.made nothing recorded consistent
    · have writes := generate_writes vault made now w guarded.sound guarded.tidy
      rw [← disk] at writes
      exact guarded.made writes recorded consistent
  | importKey req now =>
    simp only [Request.after, Request.run, outcome_discard] at consistent ⊢
    have writes := importKey_writes vault req now w guarded.sound guarded.tidy
    have committed := importKey_commits vault req now w.inventory w rfl
    rcases run : outcome (importKey vault req now) w with ⟨e | k, w'⟩
    · rw [run] at committed writes consistent
      exact guarded.made writes (.inl committed) consistent
    · rw [run] at writes consistent
      exact guarded.takenIn (takenIn_of_importKey run) writes consistent
  | removeKey name force deleteFiles =>
    simp only [Request.after, Request.run, outcome_discard] at consistent ⊢
    obtain ⟨deletes, _⟩ := removeKey_files guarded.sound guarded.doomed
    refine ⟨⟨deletes.later.sound, deletes.tidy guarded.tidy, ?_, consistent⟩, deletes.later.evolves⟩
    exact fun f member => (guarded.unlinked f (mem_files_of_removal member)).later deletes.later.evolves
  | _ => cases handles

theorem Run.guarded (run : Run vault inv d) : Guarded vault inv d := by
  induction run with
  | start sound empty =>
    refine ⟨sound, empty.tidy, fun f member => ?_, check_eq_nil_iff.mp rfl⟩
    cases member
  | step _ handles ih => exact (ih.step handles).1
  | wait now _ ih => exact ih.wait now

end Lifecycle

/-! ## What a step does to the file of a key that stays -/

namespace Request

variable {vault f : Path} {w : World} {at_ : Place} {e : Entry} {k : Key} {r : Request}

/-- The requests that reach for a place though a key other than theirs has its file there. -/
inductive Harms (vault : Path) (w : World) (k : Key) (at_ : Place) : Request → Prop where
  /-- The copy of a public half comes there. -/
  | copy {req : ImportedKey} {now : Time.Instant} : keepsCopy w.disk req = true →
      w.disk.place true (Layout.publicFile vault req.name) = .ok at_ → Harms vault w k at_ (.importKey req now)
  /-- The file there is one of a removed key, too, and deleted with it. -/
  | shared {name : String} {force deleteFiles : Bool} {f : Path} : name ≠ k.name →
      f ∈ doomed vault w name force deleteFiles → w.disk.place true f = .ok at_ →
      Harms vault w k at_ (.removeKey name force deleteFiles)

/-- What a harmful request leaves: the public half of the key taken in, or nothing. -/
def Leaves (w' : World) (at_ : Place) : Request → Prop
  | importKey req _ => ∃ k ∈ w'.inventory.keys, k.name = req.name ∧ ∃ modified,
      w'.disk.entryAt at_ = some (.file (.text (k.publicLine ++ "\n")) Disk.privateFileMode modified)
  | removeKey .. => w'.disk.entryAt at_ = none
  | _ => False

theorem outcome_discard_ok {α : Type} {op : Op α} {w' : World}
    (done : outcome (discard op) w = (.ok (), w')) : ∃ a, outcome op w = (.ok a, w') := by
  obtain ⟨a, t, run, last⟩ := of_outcome_bind_ok (x := op) (f := fun _ => pure ()) done
  cases last
  exact ⟨a, run⟩

/-- A key that is on record after a removal is not the one removed. -/
theorem other_of_removeKey {name : String} {force deleteFiles : Bool} (consistent : w.inventory.Consistent)
    (stays : k.name ∈ ((Request.removeKey name force deleteFiles).after vault w).inventory.keyNames)
    (member : f ∈ doomed vault w name force deleteFiles) : name ≠ k.name := by
  simp only [Request.after, Request.run, outcome_discard] at stays
  have inventory := removeKey_inventory vault name force deleteFiles w
  rcases removed : w.inventory.removeKey name force with e | ⟨k', inv'⟩
  · simp [doomed, removed] at member
  · simp only [removed] at inventory
    obtain ⟨old, _, _, rfl⟩ := removeKey_eq_ok removed
    rw [inventory, keyNames_dropKey, consistent.keysDistinct.mem_erase_iff] at stays
    exact stays.1.symm

/-- A file on record for a key that stays is left as it was, unless the request harms it. -/
theorem entryAt_after (guarded : Guarded vault w.inventory w.disk) (handles : r.handlesKeys = true)
    (stays : k.name ∈ (r.after vault w).inventory.keyNames)
    (entry : w.disk.entryAt at_ = some e) (isFile : e.isFile = true) :
    (r.after vault w).disk.entryAt at_ = some e ∨ r.Harms vault w k at_ := by
  cases r with
  | generate req now =>
    simp only [Request.after, Request.run, outcome_discard]
    exact .inl (generate_preserves guarded.sound guarded.tidy entry isFile)
  | rotate req now =>
    simp only [Request.after, Request.run, outcome_discard]
    obtain disk | ⟨made, disk⟩ := rotate_files vault req now w
    · exact .inl (by rw [disk, entry])
    · rw [disk]
      exact .inl (generate_preserves guarded.sound guarded.tidy entry isFile)
  | importKey req now =>
    simp only [Request.after, Request.run, outcome_discard]
    rcases checked : checkImport w.inventory w.disk req with e' | u
    · rw [importKey_refused checked]
      exact .inl entry
    have writes := Lifecycle.importKey_writes vault req now w guarded.sound guarded.tidy
    by_cases here : InKeys vault (copyNames w.disk req) (outcome (Lifecycle.importKey vault req now) w).2.disk at_
    · obtain ⟨name, member, led⟩ := here
      unfold copyNames at member
      split at member
      · rename_i copies
        rw [List.mem_singleton.mp member] at led
        have isName := Name.isName_public (isName_of_checkImport checked)
        exact .inr (.copy copies
          (guarded.tidy.place_of_file guarded.sound writes.later.evolves isName led entry isFile))
      · cases member
    · exact .inl ((writes.later.files at_ here e isFile).mpr entry)
  | removeKey name force deleteFiles =>
    obtain ⟨deletes, _⟩ := removeKey_files guarded.sound guarded.doomed
    by_cases here : ∃ f ∈ doomed vault w name force deleteFiles, w.disk.place true f = .ok at_
    · obtain ⟨f, member, led⟩ := here
      exact .inr (.shared (other_of_removeKey guarded.consistent stays member) member led)
    · simp only [Request.after, Request.run, outcome_discard]
      exact .inl ((deletes.later.files at_ here e isFile).mpr entry)
  | _ => cases handles

/-- A harmful request that succeeds has its file there, or has nothing left there. -/
theorem leaves_of_harms {w' : World} (guarded : Guarded vault w.inventory w.disk)
    (harms : r.Harms vault w k at_)
    (done : outcome (r.run vault) w = (.ok (), w')) : r.Leaves w' at_ := by
  cases harms with
  | @copy req now copies led =>
    obtain ⟨k', run⟩ := outcome_discard_ok done
    have taken := takenIn_of_importKey run
    have written : World.WritesTo vault (copyNames w.disk req) w (outcome (Lifecycle.importKey vault req now) w).2 :=
      importKey_writes vault req now w
    rw [run] at written
    have later := (written guarded.sound guarded.tidy).later
    obtain ⟨_, there, modified, found⟩ := taken.find_copy guarded.sound guarded.tidy copies
    obtain ⟨led', entry⟩ := find_eq_ok_iff.mp found
    rw [later.place led] at led'
    cases led'
    refine ⟨k', ?_, taken.name, modified, entry⟩
    rw [taken.keys]
    exact List.mem_append_right _ (List.mem_singleton.mpr rfl)
  | @shared name force deleteFiles f other member led =>
    obtain ⟨k', run⟩ := outcome_discard_ok done
    exact (removeKey_files guarded.sound guarded.doomed).2 k' w' run f member at_ led

/-- In every run, each step leaves the files of the keys that stay on record as they were, unless it
harms them; a harmful step that succeeds has written over the file or deleted it. -/
theorem files_kept (run : Run vault w.inventory w.disk) (handles : r.handlesKeys = true) :
    ∀ k ∈ w.inventory.keys, k.name ∈ (r.after vault w).inventory.keyNames →
      ∀ f ∈ [k.privateFile, k.publicFile], ∀ at_ e, w.disk.find true f = .ok (at_, e) → e.isFile = true →
        ((r.after vault w).disk.find true f = .ok (at_, e) ∨ r.Harms vault w k at_) ∧
          (r.Harms vault w k at_ → (outcome (r.run vault) w).1 = .ok () → r.Leaves (r.after vault w) at_) := by
  intro k _ stays f _ at_ e found isFile
  obtain ⟨led, entry⟩ := find_eq_ok_iff.mp found
  have guarded := run.guarded
  refine ⟨(entryAt_after guarded handles stays entry isFile).imp_left fun kept => ?_, fun harms done => ?_⟩
  · exact find_eq_ok_iff.mpr ⟨(guarded.step handles).2.place led, kept⟩
  · exact leaves_of_harms guarded harms (Prod.ext done rfl)

/-- An empty vault, a private key outside it, and a tool that makes keys. -/
def freshWorld : World where
  inventory := .empty
  disk := emptyDisk.put ["id"] (.file (.text "PRIVATE\n") 0o600 ⟨0, 0⟩)
  installed := [Call.keyMaker]
  passesNul := true
  replies := []
  usualReply := .ran ⟨some 0, "", ""⟩ ⟨some "SECRET\n",
    some "ssh-ed25519 AAAAC3NzaC1lZDI1NTE5AAAAIIM9Y5lC9a53P+lX/ZeYJG/9M3IyP52bjxNcIXTtrcj4 alice@laptop\n"⟩
  calls := []

/-- That world when a key has been made whose name ends like the file of a public half. -/
def dottedWorld : World :=
  (Request.generate ⟨"a.pub", .ed25519, none, none, none, none, []⟩ ⟨0, 0⟩).after "vault" freshWorld

/-- The key outside is taken in under the rest of that name. -/
def takeIn : Request := .importKey ⟨"a", "id",
  some "ssh-ed25519 AAAAC3NzaC1lZDI1NTE5AAAAIDw8PDw8PDw8PDw8PDw8PDw8PDw8PDw8PDw8PDw8PDw8 bob@desk", none, []⟩ ⟨0, 0⟩

theorem wellFormed_freshWorld : freshWorld.disk.WellFormed :=
  wellFormed_loneFile (Name.isName_private (by decide)) rfl

theorem emptyVault_freshWorld : EmptyVault "vault" freshWorld.disk := by
  have led : freshWorld.disk.place true "vault" = .ok ["vault"] := by decide +kernel
  refine emptyVault_of_place led fun below some => ?_
  obtain ⟨name, rest, rfl⟩ := List.exists_cons_of_ne_nil some
  have notRoot : ["id"] ≠ [] := by decide
  rw [freshWorld, entryAt_put_of_ne notRoot (by simp)]
  rfl

/-- The private key of `a.pub` is lost when a key `a` is taken in. -/
theorem privateFile_overwritten :
    (∃ k ∈ dottedWorld.inventory.keys, k.privateFile = "vault/keys/a.pub" ∧ k.name = "a.pub") ∧
      dottedWorld.disk.find true "vault/keys/a.pub" =
        .ok (["vault", "keys", "a.pub"], .file (.text "SECRET\n") 0o600 ⟨0, 0⟩) ∧
      takeIn.Leaves (takeIn.after "vault" dottedWorld) ["vault", "keys", "a.pub"] := by
  have made : (∃ k ∈ dottedWorld.inventory.keys, k.privateFile = "vault/keys/a.pub" ∧ k.name = "a.pub") ∧
      dottedWorld.disk.find true "vault/keys/a.pub" =
        .ok (["vault", "keys", "a.pub"], .file (.text "SECRET\n") 0o600 ⟨0, 0⟩) := by decide +kernel
  have taken : "a.pub" ∈ (takeIn.after "vault" dottedWorld).inventory.keyNames ∧
      (outcome (takeIn.run "vault") dottedWorld).1 = .ok () := by decide +kernel
  obtain ⟨⟨k, member, path, name⟩, found⟩ := made
  obtain ⟨stays, done⟩ := taken
  have run : Run "vault" dottedWorld.inventory dottedWorld.disk :=
    .step (w := freshWorld) (.start wellFormed_freshWorld emptyVault_freshWorld) rfl
  have led : dottedWorld.disk.place true "vault/keys/a.pub" = .ok ["vault", "keys", "a.pub"] :=
    (find_eq_ok_iff.mp found).1
  have kept := files_kept run (r := takeIn) rfl k member (name ▸ stays) k.privateFile (by simp) _ _
    (path ▸ found) rfl
  exact ⟨⟨k, member, path, name⟩, found, kept.2 (.copy rfl led) done⟩

end Request

end Keyring

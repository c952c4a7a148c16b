import Keyring.Proofs.Disk.Fewer
import Keyring.Proofs.Lifecycle.FailedRemoval

/-!
# Files that are the vault's own

The vault owns both files of a key that it made, and of a key that was taken in the public file at most,
where its path goes on from the directory of keys (`Key.OwnFile`). A removal takes nothing from the disk but
entries that these paths name, on any disk, wherever its links lead (`removeKey_takes_own`).
-/

namespace Keyring

variable {k : Key} {keysDir vault f : Path} {fs gs : List Path} {d d' d'' : Disk} {at_ : Place} {e : Entry}
  {name : String} {force deleteFiles : Bool} {w w' : World} {r : Except Error Key}

/-- A path of a key that is the vault's own, given the path of its directory of keys. -/
inductive Key.OwnFile (k : Key) (keysDir : Path) : Path → Prop where
  | madePublic : k.managed = true → OwnFile k keysDir k.publicFile
  | madePrivate : k.managed = true → OwnFile k keysDir k.privateFile
  /-- The public file of a key that was taken in, kept in that directory. -/
  | kept : k.managed = false → keysDir.components <+: k.publicFile.components → OwnFile k keysDir k.publicFile

theorem Key.OwnFile.of_foreign (own : k.OwnFile keysDir f) (foreign : k.managed = false) :
    f = k.publicFile ∧ keysDir.components <+: f.components := by
  cases own with
  | madePublic managed => simp [foreign] at managed
  | madePrivate managed => simp [foreign] at managed
  | kept _ within => exact ⟨rfl, within⟩

namespace Lifecycle

theorem owns_eq_true_iff : owns keysDir k f = true ↔
    k.managed = true ∨ keysDir.components <+: f.components := by
  rw [owns, Bool.or_eq_true, Path.startsWith, List.isPrefixOf_iff_prefix]

theorem mem_filesToDelete_iff : f ∈ filesToDelete keysDir k ↔ k.OwnFile keysDir f := by
  by_cases managed : k.managed = true
  · rw [filesToDelete_of_managed keysDir managed]
    constructor
    · intro member
      rcases List.mem_pair.mp member with rfl | rfl
      · exact .madePublic managed
      · exact .madePrivate managed
    · intro own
      cases own with
      | madePublic => exact List.mem_cons_self
      | madePrivate => exact List.mem_cons_of_mem _ List.mem_cons_self
      | kept foreign => simp [managed] at foreign
  · have foreign : k.managed = false := by simpa using managed
    rw [filesToDelete_of_not_managed keysDir foreign]
    constructor
    · intro member
      obtain ⟨owned, listed⟩ := List.mem_ite_nil_right.mp member
      obtain rfl := List.mem_singleton.mp listed
      exact .kept foreign ((owns_eq_true_iff.mp owned).resolve_left managed)
    · intro own
      obtain ⟨rfl, within⟩ := own.of_foreign foreign
      exact List.mem_ite_nil_right.mpr ⟨owns_eq_true_iff.mpr (.inr within), List.mem_cons_self⟩

/-- Some of the entries that the paths name have gone, and nothing else has happened to the places of the disk. -/
structure Takes (fs : List Path) (d d' : Disk) : Prop where
  workingPlace : d'.workingPlace = d.workingPlace
  entryAt : ∀ at_, d'.entryAt at_ = d.entryAt at_ ∨
    d'.entryAt at_ = none ∧ ∃ f ∈ fs, ∃ e, d.find false f = .ok (at_, e)

namespace Takes

theorem refl (fs : List Path) (d : Disk) : Takes fs d d := ⟨rfl, fun _ => .inl rfl⟩

theorem fewer (takes : Takes fs d d') : Disk.Fewer d' d := by
  refine ⟨takes.workingPlace, fun at_ e entry => ?_⟩
  rcases takes.entryAt at_ with same | ⟨gone, -⟩
  · exact same.symm.trans entry
  · rw [gone] at entry
    cases entry

theorem trans (first : Takes fs d d') (second : Takes gs d' d'') : Takes (fs ++ gs) d d'' := by
  refine ⟨second.workingPlace.trans first.workingPlace, fun at_ => ?_⟩
  rcases second.entryAt at_ with same | ⟨gone, f, member, e, found⟩
  · rcases first.entryAt at_ with same' | ⟨gone, f, member, e, found⟩
    · exact .inl (same.trans same')
    · exact .inr ⟨same.trans gone, f, List.mem_append_left _ member, e, found⟩
  · exact .inr ⟨gone, f, List.mem_append_right _ member, e, first.fewer.find found⟩

end Takes

theorem takes_deletion (done : deletion d f = .ok d') : Takes [f] d d' ∧ d'.exists_ f = false := by
  unfold deletion at done
  by_cases there : d.exists_ f = true
  · rw [if_pos there] at done
    obtain ⟨at_, e, found⟩ := Disk.find_false_of_exists there
    have entry := (Disk.find_eq_ok_iff.mp found).2
    rw [found] at done
    have erased : at_ ≠ [] ∧ d.erase at_ = d' := by
      cases e with
      | directory mode => cases done
      | file content mode modified =>
        simp only [Except.ok.injEq] at done
        exact ⟨Disk.ne_nil_of_file entry rfl, done⟩
      | link t =>
        simp only [Except.ok.injEq] at done
        refine ⟨?_, done⟩
        rintro rfl
        cases entry
    obtain ⟨notRoot, rfl⟩ := erased
    refine ⟨⟨rfl, fun there' => ?_⟩, Disk.exists_erase found notRoot⟩
    rw [Disk.entryAt_erase notRoot]
    by_cases same : there' = at_
    · exact .inr ⟨if_pos same, f, List.mem_cons_self, e, same ▸ found⟩
    · exact .inl (if_neg same)
  · rw [if_neg there] at done
    obtain rfl := Except.ok.inj done
    exact ⟨.refl _ _, by simpa using there⟩

/-- Files that are deleted in turn are gone, and nothing else. -/
theorem takes_deleteFiles (fs : List Path) (d : Disk) : Takes fs d (outcome (fs.forM deleteFile) d).2 ∧
    ((outcome (fs.forM deleteFile) d).1 = .ok () →
      ∀ f ∈ fs, (outcome (fs.forM deleteFile) d).2.exists_ f = false) := by
  induction fs generalizing d with
  | nil => exact ⟨.refl _ _, fun _ => List.forall_mem_nil _⟩
  | cons f fs ih =>
    have step : outcome ((f :: fs).forM deleteFile) d =
        outcome (deleteFile f >>= fun _ => fs.forM deleteFile) d := rfl
    rw [step, outcome_bind, outcome_deleteFile_eq]
    rcases done : deletion d f with reason | d₁
    · refine ⟨.refl _ _, fun all => ?_⟩
      cases all
    · obtain ⟨takes, gone⟩ := takes_deletion done
      obtain ⟨takes', gone'⟩ := ih d₁
      refine ⟨takes.trans takes', fun all => List.forall_mem_cons.mpr ⟨?_, gone' all⟩⟩
      -- what is gone does not come back when others go
      rw [Bool.eq_false_iff]
      intro back
      rw [takes'.fewer.exists_ back] at gone
      cases gone

/-- A removal does to the disk what the deletion of the files does that it means to delete. -/
theorem disk_of_removeKey (run : outcome (removeKey vault name force deleteFiles) w = (r, w')) :
    w'.disk = (outcome ((doomed vault w name force deleteFiles).forM deleteFile) w.disk).2 ∧
      ∀ k, r = .ok k → (outcome ((doomed vault w name force deleteFiles).forM deleteFile) w.disk).1 = .ok () := by
  unfold removeKey at run
  rw [outcome_bind, Op.outcome_edit_made (InventoryM.atomic_removeKey _ _), ← Inventory.removeKey] at run
  unfold doomed
  rcases removed : w.inventory.removeKey name force with e | ⟨k, inv'⟩
  · rw [removed] at run
    cases run
    refine ⟨rfl, ?_⟩
    rintro _ ⟨⟩
  · rw [removed] at run
    cases deleteFiles with
    | false =>
      cases run
      exact ⟨rfl, fun _ _ => rfl⟩
    | true =>
      simp only [if_true] at run ⊢
      rw [outcome_bind, Op.outcome_disk] at run
      dsimp only at run
      generalize filesToDelete (w.disk.canonicalOrSame (Layout.keysDir vault)) k = fs at run ⊢
      rw [outcome_bind, Op.outcome_onDisk] at run
      dsimp only at run
      rcases deleted : outcome (fs.forM deleteFile) w.disk with ⟨reason | u, d'⟩
      · rw [deleted] at run
        cases run
        refine ⟨rfl, ?_⟩
        rintro _ ⟨⟩
      · rw [deleted] at run
        cases run
        exact ⟨rfl, fun _ _ => rfl⟩

/-- A removal leaves the disk alone where it is refused or no file is to be deleted. Otherwise it takes only
entries that own files of the key name, and where it succeeds none of these paths leads to anything any more. The
private file of a key that was taken in stays, unless it is the entry that the public path names. -/
theorem removeKey_takes_own (run : outcome (removeKey vault name force deleteFiles) w = (r, w')) :
    (deleteFiles = false → w'.disk = w.disk) ∧
    (∀ e, w.inventory.removeKey name force = .error e → w'.disk = w.disk) ∧
    ∀ k inv', w.inventory.removeKey name force = .ok (k, inv') →
      let own := k.OwnFile (w.disk.canonicalOrSame (Layout.keysDir vault))
      (∀ at_, w'.disk.entryAt at_ = w.disk.entryAt at_ ∨
        w'.disk.entryAt at_ = none ∧ ∃ f e, own f ∧ w.disk.find false f = .ok (at_, e)) ∧
      (deleteFiles = true → ∀ k', r = .ok k' → ∀ f, own f → w'.disk.exists_ f = false) ∧
      (k.managed = false → ∀ through at_ e, w.disk.find through k.privateFile = .ok (at_, e) →
        w'.disk.entryAt at_ = some e ∨ ∃ e', w.disk.find false k.publicFile = .ok (at_, e')) := by
  obtain ⟨after, succeeds⟩ := disk_of_removeKey run
  obtain ⟨takes, gone⟩ := takes_deleteFiles (doomed vault w name force deleteFiles) w.disk
  rw [← after] at takes gone
  refine ⟨fun spared => ?_, fun e refused => ?_, ?_⟩
  · have none_ : doomed vault w name force deleteFiles = [] := by
      unfold doomed
      split
      · rw [spared, if_neg Bool.false_ne_true]
      · rfl
    rw [after, none_]
    rfl
  · have none_ : doomed vault w name force deleteFiles = [] := by simp [doomed, refused]
    rw [after, none_]
    rfl
  intro k inv' removed own
  have own_of_doomed : ∀ f ∈ doomed vault w name force deleteFiles, own f := by
    intro f member
    simp only [doomed, removed, List.mem_ite_nil_right] at member
    exact mem_filesToDelete_iff.mp member.2
  have taken : ∀ at_, w'.disk.entryAt at_ = w.disk.entryAt at_ ∨
      w'.disk.entryAt at_ = none ∧ ∃ f e, own f ∧ w.disk.find false f = .ok (at_, e) := by
    intro at_
    rcases takes.entryAt at_ with same | ⟨none_, f, member, e, found⟩
    · exact .inl same
    · exact .inr ⟨none_, f, e, own_of_doomed f member, found⟩
  refine ⟨taken, fun asked k' done f isOwn => ?_, fun foreign through at_ e found => ?_⟩
  · refine gone (succeeds k' done) f ?_
    simp only [doomed, removed, asked, if_true]
    exact mem_filesToDelete_iff.mpr isOwn
  · rcases taken at_ with same | ⟨-, f, e', isOwn, named⟩
    · exact .inl (same.trans (Disk.find_eq_ok_iff.mp found).2)
    · exact .inr ⟨e', (isOwn.of_foreign foreign).1 ▸ named⟩

/-- A key that was taken in. Where its public file should be there is a link to the private one. -/
def linkedKey : Key :=
  recordOf "work" ⟨"ssh-ed25519", .ed25519, [], ""⟩ "" "id" "/vault/keys/work.pub" ⟨0, 0⟩ none false []

def borrowedWorld : World :=
  let entries := [(["vault"], .directory 0o700), (["vault", "keys"], .directory 0o700),
    (["vault", "keys", "work.pub"], .link "/id"), (["id"], .file (.text "PRIVATE\n") 0o600 ⟨0, 0⟩)]
  { Request.freshWorld with
    inventory := { Inventory.empty with keys := [linkedKey] }, disk := { Disk.emptyDisk with entries := entries } }

/-- With the key its link goes, and what it leads to stays. -/
theorem removeKey_takes_own_of_borrowedWorld : ∃ k w',
    outcome (removeKey "vault" "work" false true) borrowedWorld = (.ok k, w') ∧
    w'.disk.exists_ "/vault/keys/work.pub" = false ∧ w'.disk.entryAt ["id"] = borrowedWorld.disk.entryAt ["id"] := by
  have facts : (outcome (removeKey "vault" "work" false true) borrowedWorld).1.isOk = true ∧
      borrowedWorld.inventory.removeKey "work" false = .ok (linkedKey, .empty) ∧
      borrowedWorld.disk.find false "id" = .ok (["id"], .file (.text "PRIVATE\n") 0o600 ⟨0, 0⟩) ∧
      (borrowedWorld.disk.find false "/vault/keys/work.pub").map (·.1) = .ok ["vault", "keys", "work.pub"] ∧
      (borrowedWorld.disk.canonicalOrSame (Layout.keysDir "vault")).components <+: linkedKey.publicFile.components := by
    decide +kernel
  obtain ⟨done, removed, own, named, within⟩ := facts
  rcases run : outcome (removeKey "vault" "work" false true) borrowedWorld with ⟨_ | k, w'⟩
  · rw [run] at done
    cases done
  obtain ⟨-, -, takes⟩ := removeKey_takes_own run
  obtain ⟨-, gone, spared⟩ := takes linkedKey .empty removed
  refine ⟨k, w', rfl, gone rfl k rfl _ (.kept rfl within), ?_⟩
  rcases spared rfl false _ _ own with kept | ⟨e, found⟩
  · exact kept.trans (Disk.find_eq_ok_iff.mp own).2.symm
  · -- the public path names the link, and not the private file
    have found' : borrowedWorld.disk.find false "/vault/keys/work.pub" = .ok (["id"], e) := found
    rw [found'] at named
    have same : ["id"] = ["vault", "keys", "work.pub"] := Except.ok.inj named
    exact absurd same (by decide)

end Lifecycle

end Keyring

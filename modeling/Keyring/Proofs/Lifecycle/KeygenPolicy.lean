import Keyring.Proofs.Disk.Paving
import Keyring.Proofs.Lifecycle.FailedMaking
import Keyring.Proofs.Operation.Transcript

/-!
# What is asked of the tool that makes keys

One call at most is made for a new key, and that keeps to a policy on the kind of key, on its name and on
the files that it is made over (`Obeys`). The files are looked for before the directory of keys is made. A
path of a vault that leads nowhere before that, for want of a directory in front of a `..`, may lead to an
old directory after it. The files in there are not seen, and the tool is called to make others in their place.
-/

namespace Keyring

open Disk Time

variable {w : World} {vault : Path} {name : String} {d d' : Disk}

namespace Lifecycle

open Layout Op

/-- A directory of keys that had to be made is bare if the vault was there, or if its path has no `..`. -/
theorem bare_of_ensureKeysDir (sound : d.WellFormed) (way : d.isDirectory vault = true ∨ ".." ∉ vault.names)
    (missing : d.isDirectory (keysDir vault) = false)
    (made : outcome (ensureDirectory (keysDir vault)) d = (.ok (), d')) : d'.IsBare (keysDir vault) := by
  have kept := withoutEndSlashes_keysDir vault
  rcases way with isDir | noUp
  · -- nothing but the directory itself is missing
    have faultless : pathFault? (keysDir vault) = none := by
      obtain ⟨_, led, _⟩ := isDirectory_iff.mp (isDirectory_of_ensureKeysDir sound made)
      exact (place_eq_ok_iff.mp led).1
    obtain ⟨at_, led, isDirAt⟩ := isDirectory_iff.mp isDir
    have led' : d.place false (keysDir vault) = .ok (at_ ++ ["keys"]) :=
      place_false_join led isDirAt (Name.isName_private (by decide)) faultless
    have first : outcome (makeDirectory (keysDir vault)) d = if (d.entryAt (at_ ++ ["keys"])).isSome
        then (.error .exists, d) else (.ok (), d.put (at_ ++ ["keys"]) (.directory directoryMode)) := by
      rw [outcome_makeDirectory, kept, led']
    rw [ensureDirectory, makeDirectories, if_neg (by simpa using keysDir_ne_empty vault), outcome_tryCatch,
      outcome_makeOrFindDirectory_of_missing missing] at made
    by_cases taken : (d.entryAt (at_ ++ ["keys"])).isSome = true
    · rw [first, if_pos taken] at made
      cases made
    · rw [if_neg taken] at first
      rw [first] at made
      cases made
      have bare := bare_of_makeDirectory sound first
      rwa [kept] at bare
  · obtain ⟨front, whole⟩ := segments_keysDir vault
    have bare := bare_of_makeDirectories sound whole (by decide) (fun up => noUp (up_of_keysDir up)) missing made
    rwa [kept] at bare

/-- Then no file comes to be there while the directory is made. -/
theorem free_of_prepareKeys (sound : d.WellFormed) (isName : IsName name)
    (way : d.isDirectory vault = true ∨ ".." ∉ vault.names)
    (prepared : outcome (prepareKeys vault) d = (.ok (), d'))
    (free : d.exists_ ((keysDir vault).join name) = false) : d'.exists_ ((keysDir vault).join name) = false := by
  obtain ⟨_, d₁, made, closed⟩ := of_outcome_bind_ok prepared
  have isDir := isDirectory_of_ensureKeysDir sound made
  have soundThen : d₁.WellFormed := by
    have grows : Grows d (outcome (ensureDirectory (keysDir vault)) d).2 := keeps_ensureDirectory _ d sound
    rw [made] at grows
    exact grows.sound
  have back : Grows d' d₁ := by
    have grows : Grows (outcome (setMode (keysDir vault) 0o700) d₁).2 d₁ := grows_from_setMode soundThen isDir
    rwa [closed] at grows
  have freeThen : d₁.exists_ ((keysDir vault).join name) = false := by
    by_cases there : d.isDirectory (keysDir vault) = true
    · rw [outcome_ensureDirectory_of_isDirectory there] at made
      cases made
      exact free
    · have bare := bare_of_ensureKeysDir sound way (by simpa using there) made
      obtain ⟨_, led, _⟩ := isDirectory_iff.mp isDir
      exact bare.not_exists isName (place_eq_ok_iff.mp led).1
  rw [Bool.eq_false_iff]
  intro there
  rw [back.exists_ there] at freeThen
  cases freeThen

/-- The policy is why a request is refused. -/
def refusesMaking : Error → Bool
  | .invalidName _ | .keyExists _ | .weakAlgorithm _ | .invalidKeySize _ | .keyFileExists _ => true
  | _ => false

/-- The arguments that say what kind of key to make. -/
inductive IsKind : List String → Prop where
  | ed25519 : IsKind ["-t", "ed25519"]
  | ecdsa {bits : Nat} (curve : bits ∈ [256, 384, 521]) : IsKind ["-t", "ecdsa", "-b", toString bits]
  | rsa {bits : Nat} (strong : 2048 ≤ bits) : IsKind ["-t", "rsa", "-b", toString bits]

/-- The files of a key, as the tool that makes it is told and as it names the other. -/
def pairFiles (vault : Path) (name : String) : List Path :=
  [privateFile vault name, privateFile vault name ++ ".pub"]

/-- A call makes a key of a kind that is allowed, under a name that no key has. Neither of its files was
there when the request was checked. Nor is one there when the tool finds the disk `d`, if the vault was
there or its path has no `..`; otherwise it may be an old one. -/
structure Obeys (vault : Path) (w : World) (name : String) (c : Call) (d : Disk) : Prop where
  asks : ∃ kind phrase comment, IsKind kind ∧
    c = ⟨"ssh-keygen", ["-q"] ++ kind ++ ["-N", phrase, "-C", comment, "-f", privateFile vault name], none⟩
  isName : Name.isName name = true
  free : name ∉ w.inventory.keyNames
  checked : ∀ f ∈ pairFiles vault name, w.disk.exists_ f = false
  untouched : w.disk.isDirectory vault = true ∨ ".." ∉ vault.names →
    ∀ f ∈ pairFiles vault name, d.exists_ f = false
  old : ∀ f ∈ pairFiles vault name, ∀ at_ e,
    d.find true f = .ok (at_, e) → e.isFile = true → w.disk.entryAt at_ = some e

/-- An operation calls one tool at most, and as the policy asks; what the policy refuses leaves everything
as it was. -/
structure KeepsPolicy {α : Type} (vault : Path) (op : Op α) (w : World) : Prop where
  calls : ∃ log, Transcript w log (outcome op w).2 ∧ log.length ≤ 1 ∧
    ∀ entry ∈ log, ∃ name, Obeys vault w name entry.1 (op.diskAtCall w)
  refused : ∀ e, (outcome op w).1 = .error e → refusesMaking e = true → (outcome op w).2 = w

/-! ## The making of a key -/

variable {req : NewKey} {bits : Option Nat} {now : Instant}

theorem not_refusesMaking_of_late {e : Error} (late : e.blamesOutside = true ∨ e = .dateOverflow) :
    refusesMaking e = false := by
  obtain outside | rfl := late
  · cases e <;> first | rfl | cases outside
  · rfl

def makingCall (vault : Path) (req : NewKey) (bits : Option Nat) : Call :=
  ⟨Call.keyMaker, keygenArgs req bits (req.comment.getD (req.name ++ "@ssh-vault")) (privateFile vault req.name), none⟩

theorem chosenBits_of_checkNew {inv : Inventory} (checked : checkNew inv d vault req = .ok bits) :
    req.algorithm.chosenBits req.bits = .ok bits := by
  have asked := checkRequest_of_checkNew checked
  unfold checkRequest at asked
  cases named : Name.check req.name with
  | error e => simp [named, bind, Except.bind] at asked
  | ok u =>
    rw [named, findKey?_of_checkNew checked] at asked
    exact asked

theorem asks_makingCall (chosen : req.algorithm.chosenBits req.bits = .ok bits) :
    ∃ kind phrase comment, IsKind kind ∧ makingCall vault req bits =
      ⟨"ssh-keygen", ["-q"] ++ kind ++ ["-N", phrase, "-C", comment, "-f", privateFile vault req.name], none⟩ := by
  obtain ⟨name, algorithm, wanted, comment, ttlDays, phrase, tags⟩ := req
  cases algorithm with
  | dsa => cases chosen
  | ed25519 =>
    cases chosen
    exact ⟨_, _, _, .ed25519, rfl⟩
  | ecdsa =>
    dsimp only [Algorithm.chosenBits] at chosen
    split at chosen
    · split at chosen
      · rename_i curve
        cases chosen
        exact ⟨_, _, _, .ecdsa curve, rfl⟩
      · cases chosen
    · rename_i none_
      cases wanted <;> cases none_
  | rsa =>
    dsimp only [Algorithm.chosenBits] at chosen
    split at chosen
    · cases chosen
    · rename_i strong
      cases chosen
      exact ⟨_, _, _, .rsa (Nat.le_of_not_lt strong), rfl⟩

/-- Once the directory of keys is there, the tool is called. -/
theorem comesTo_makeFiles (prepared : outcome (prepareKeys vault) w.disk = (.ok (), d)) :
    ComesTo (makeFiles vault req bits) w (makingCall vault req bits) d := by
  have quiet : ∀ output, Quiet (finishPair vault req output) := by
    intro output
    refine .bind (.of_still (still_ofExcept _)) fun _ => .bind (.onDisk _) fun _ => ?_
    exact .bind (.of_still still_disk) fun _ => .of_still (still_ofExcept _)
  refine ⟨finishPair vault req, quiet, fun replies => ?_⟩
  have same : (w.answering replies).disk = w.disk := rfl
  rw [makeFiles_eq, outcome_bind, outcome_onDisk, same, prepared]
  rfl

/-- Both files are named in the directory of keys. -/
theorem of_mem_pairFiles {f : Path} (isName : Name.isName name = true) (member : f ∈ pairFiles vault name) :
    ∃ n ∈ [name, name ++ ".pub"], IsName n ∧ f = (keysDir vault).join n := by
  rcases List.mem_cons.mp member with rfl | member
  · exact ⟨name, by simp, Name.isName_private isName, rfl⟩
  · rw [List.mem_singleton.mp member, privateFile_append_pub (Name.isName_private isName).plain]
    exact ⟨name ++ ".pub", by simp, Name.isName_public isName, rfl⟩

theorem obeys_makingCall (sound : w.disk.WellFormed) (checked : checkNew w.inventory w.disk vault req = .ok bits)
    (prepared : outcome (prepareKeys vault) w.disk = (.ok (), d)) :
    Obeys vault w req.name (makingCall vault req bits) d := by
  have isName := isName_of_checkNew checked
  have grows : Grows w.disk d := by
    have grows := grows_prepareKeys sound vault
    rwa [prepared] at grows
  have free : ∀ f ∈ pairFiles vault req.name, w.disk.exists_ f = false := by
    intro f member
    obtain ⟨n, named, _, rfl⟩ := of_mem_pairFiles isName member
    exact free_of_checkNew checked n named
  refine ⟨asks_makingCall (chosenBits_of_checkNew checked), isName,
    Inventory.findKey?_eq_none_iff.mp (findKey?_of_checkNew checked), free, ?_, ?_⟩
  · intro way f member
    obtain ⟨n, _, named, rfl⟩ := of_mem_pairFiles isName member
    exact free_of_prepareKeys sound named way prepared (free _ member)
  · intro f _ at_ e found isFile
    exact (grows.files at_ not_false e isFile).mp (find_eq_ok_iff.mp found).2

/-- No tool is called, or one is as the policy asks. -/
def CallsByPolicy {α : Type} (vault : Path) (op : Op α) (w : World) : Prop :=
  Silent w (outcome op w).2 ∨ ∃ name c d, ComesTo op w c d ∧ Obeys vault w name c d

theorem callsByPolicy_generate (sound : w.disk.WellFormed) (vault : Path) (req : NewKey) (now : Instant) :
    CallsByPolicy vault (generate vault req now) w := by
  cases checked : checkNew w.inventory w.disk vault req with
  | error e =>
    refine .inl ?_
    rw [outcome_generate_refused checked]
    exact .refl w
  | ok bits =>
    rcases prepared : outcome (prepareKeys vault) w.disk with ⟨reason | u, d⟩
    · refine .inl ?_
      rw [generate_eq, outcome_bind, outcome_makePair checked, makeFiles_eq, outcome_bind, outcome_onDisk, prepared]
      exact .of_same rfl rfl rfl
    · have pair : ComesTo (makePair vault req) w (makingCall vault req bits) d := by
        refine (comesTo_makeFiles prepared).of_same fun replies => ?_
        exact outcome_makePair (w := w.answering replies) checked
      have whole : ComesTo (generate vault req now) w (makingCall vault req bits) d := by
        rw [generate_eq]
        refine pair.bind fun pub => ?_
        exact .bind (.of_still (still_ofExcept _)) fun _ => .bind (.edit _) fun _ => .pure _
      exact .inr ⟨_, _, _, whole, obeys_makingCall sound checked prepared⟩

namespace CallsByPolicy

variable {α β : Type} {op : Op α}

theorem bind {f : α → Op β} (calls : CallsByPolicy vault op w) (next : ∀ a, Quiet (f a)) :
    CallsByPolicy vault (op >>= f) w := by
  obtain silent | ⟨name, c, d, comes, obeys⟩ := calls
  · refine .inl ?_
    rw [outcome_bind]
    rcases run : outcome op w with ⟨e | a, w'⟩
    · rwa [run] at silent
    · rw [run] at silent
      exact silent.trans (next a w')
  · exact .inr ⟨name, c, d, comes.bind next, obeys⟩

theorem of_same {op' : Op α} (calls : CallsByPolicy vault op w)
    (same : ∀ replies, outcome op' (w.answering replies) = outcome op (w.answering replies)) :
    CallsByPolicy vault op' w := by
  refine calls.imp (fun silent => ?_) fun ⟨name, c, d, comes, obeys⟩ => ⟨name, c, d, comes.of_same same, obeys⟩
  have here : outcome op' w = outcome op w := same w.replies
  rwa [here]

theorem keepsPolicy (calls : CallsByPolicy vault op w)
    (refused : ∀ e, (outcome op w).1 = .error e → refusesMaking e = true → (outcome op w).2 = w) :
    KeepsPolicy vault op w := by
  refine ⟨?_, refused⟩
  obtain silent | ⟨name, c, d, comes, obeys⟩ := calls
  · exact ⟨[], silent, Nat.zero_le 1, nofun⟩
  · obtain ⟨log, said, rfl | ⟨reply, rfl⟩⟩ := comes.transcript
    · exact ⟨[], said, Nat.zero_le 1, nofun⟩
    · refine ⟨_, said, Nat.le_refl 1, fun entry inside => ⟨name, ?_⟩⟩
      rw [List.mem_singleton.mp inside, comes.diskAtCall]
      exact obeys

end CallsByPolicy

/-- What the policy refuses is refused before anything is done. -/
theorem eq_of_generate_refused {e : Error} (failed : (outcome (generate vault req now) w).1 = .error e)
    (refuses : refusesMaking e = true) : (outcome (generate vault req now) w).2 = w := by
  cases checked : checkNew w.inventory w.disk vault req with
  | error e' => rw [outcome_generate_refused checked]
  | ok bits =>
    rw [not_refusesMaking_of_late (refusedOnly_generate checked e failed)] at refuses
    cases refuses

/-- A key is made, anew or to follow another, by one call at most, and that call obeys the policy; what
the policy refuses is refused before anything is done. -/
theorem making_keeps_policy (sound : w.disk.WellFormed) (vault : Path) (now : Instant) :
    (∀ req : NewKey, KeepsPolicy vault (generate vault req now) w) ∧
      ∀ req : Rotation, KeepsPolicy vault (rotate vault req now) w := by
  constructor
  · intro req
    exact (callsByPolicy_generate sound vault req now).keepsPolicy fun e => eq_of_generate_refused
  · intro req
    cases active : w.inventory.activeKey req.name with
    | error e =>
      have run : outcome (rotate vault req now) w = (.error e, w) := outcome_rotate_refused active
      refine CallsByPolicy.keepsPolicy (.inl ?_) fun _ _ _ => ?_
      · rw [run]
        exact .refl w
      · rw [run]
    | ok old =>
      generalize named : req.newName.getD (rotationName w.inventory w.disk vault old.name now) = newName
      have made := callsByPolicy_generate sound vault (successor old req newName) now
      have whole : CallsByPolicy vault (rotate vault req now) w :=
        (made.bind fun _ => quiet_link old.name newName).of_same fun replies =>
          outcome_rotate_of_active (w := w.answering replies) active named
      refine whole.keepsPolicy fun e failed refuses => ?_
      rw [outcome_rotate active named] at failed ⊢
      rcases run : outcome (generate vault (successor old req newName) now) w with ⟨e' | k, w'⟩
      · rw [run] at failed
        cases failed
        have still := eq_of_generate_refused (congrArg Prod.fst run) refuses
        rwa [run] at still
      · rw [run] at failed
        cases failed

/-- A vault with a private file in its directory of keys, and nothing at `etc/x`. The tool does not write over a
file. -/
def strayWorld : World :=
  let entries := [(["etc"], .directory 0o755), (["etc", "vault"], .directory 0o700),
    (["etc", "vault", "keys"], .directory 0o700),
    (["etc", "vault", "keys", "work"], .file (.text "PRECIOUS\n") 0o600 ⟨0, 0⟩)]
  { Request.freshWorld with
    disk := { emptyDisk with entries := entries }
    usualReply := .ran ⟨some 1, "Overwrite (y/n)? ", ""⟩ ⟨none, none⟩ }

/-- The file is not found by way of `etc/x` before that is made. When the tool is called to make it, it is there. -/
theorem making_keeps_policy_of_strayWorld : strayWorld.disk.WellFormed ∧
    KeepsPolicy "etc/x/../vault" (generate "etc/x/../vault" work ⟨0, 0⟩) strayWorld ∧
    strayWorld.disk.exists_ (privateFile "etc/x/../vault" "work") = false ∧
    strayWorld.disk.readText "etc/vault/keys/work" = .ok "PRECIOUS\n" ∧
    (outcome (generate "etc/x/../vault" work ⟨0, 0⟩) strayWorld).2.calls =
      [makingCall "etc/x/../vault" work none] ∧
    ((generate "etc/x/../vault" work ⟨0, 0⟩).diskAtCall strayWorld).readText
      (privateFile "etc/x/../vault" "work") = .ok "PRECIOUS\n" := by
  have sound : strayWorld.disk.WellFormed := wellFormed_of_entries (by decide +kernel)
  refine ⟨sound, (making_keeps_policy sound "etc/x/../vault" ⟨0, 0⟩).1 work, ?_⟩
  decide +kernel

end Lifecycle

end Keyring

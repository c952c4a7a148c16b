import Keyring.Proofs.Disk.Apart
import Keyring.Proofs.Lifecycle.Recorded
import Keyring.Proofs.Operation.Request

/-!
# Files that requests leave alone

A request writes and deletes nothing but the files of keys: those on record, those of
new names in the directory of keys, and those that `ssh-keygen` is told to make. A file
that stays apart from all of them holds what it held, whether the request succeeds or
fails (`Request.spares`).
-/

namespace Keyring

open Disk

/-- The files of the key that a call may make stay apart from another file. -/
def Call.SteersClear (loose : Path → Prop) (kept : Path) (d : Disk) (c : Call) : Prop :=
  ∀ f, c.madeKey? = some f → Apart loose d true f kept ∧ Apart loose d true (f ++ ".pub") kept

/-- From one world to the other a file was spared, provided that the calls made steer clear of it. -/
def World.Spares (loose : Path → Prop) (kept : Path) (d : Disk) (w w' : World) : Prop :=
  ∃ made, w'.calls = made ++ w.calls ∧
    ((∀ c ∈ made, c.SteersClear loose kept d) → Spared loose kept d w.disk → Spared loose kept d w'.disk)

namespace World.Spares

variable {loose : Path → Prop} {kept : Path} {d : Disk} {w w' w'' : World}

/-- What leaves calls and disk alone spares every file. -/
theorem of_same (calls : w'.calls = w.calls) (disk : w'.disk = w.disk) : Spares loose kept d w w' :=
  ⟨[], calls, fun _ spared => disk ▸ spared⟩

theorem refl : Spares loose kept d w w := of_same rfl rfl

theorem trans (first : Spares loose kept d w w') (second : Spares loose kept d w' w'') :
    Spares loose kept d w w'' := by
  obtain ⟨made, calls, spared⟩ := first
  obtain ⟨more, calls', spared'⟩ := second
  refine ⟨more ++ made, by rw [calls', calls, List.append_assoc], fun clear was => ?_⟩
  exact spared' (fun c member => clear c (List.mem_append_left _ member))
    (spared (fun c member => clear c (List.mem_append_right _ member)) was)

end World.Spares

namespace Op

variable {α β : Type} {loose : Path → Prop} {kept : Path} {d : Disk}

theorem spares_bind {x : Op α} {f : α → Op β} (first : Moves (World.Spares loose kept d) x)
    (next : ∀ a, Moves (World.Spares loose kept d) (f a)) : Moves (World.Spares loose kept d) (x >>= f) :=
  Moves.bind (R := World.Spares loose kept d) World.Spares.trans first next

theorem spares_pure (a : α) : Moves (World.Spares loose kept d) (pure a : Op α) := fun _ => .refl

theorem spares_of_still {op : Op α} (still : Still op) : Moves (World.Spares loose kept d) op :=
  still.moves fun _ => .refl

theorem spares_ofExcept {r : Except Error α} {f : α → Op β}
    (next : ∀ a, r = .ok a → Moves (World.Spares loose kept d) (f a)) :
    Moves (World.Spares loose kept d) (Op.ofExcept r >>= f) := by
  intro w
  rw [outcome_bind, Op.outcome_ofExcept]
  cases r with
  | error e => exact .refl
  | ok a => exact next a rfl w

theorem spares_edit (work : InventoryM α) : Moves (World.Spares loose kept d) (Op.edit work) :=
  moves_edit (fun _ _ => .of_same rfl rfl) work

theorem spares_onDisk {work : DiskM α} (spares : Disk.Spares loose kept d work) :
    Moves (World.Spares loose kept d) (Op.onDisk work) := by
  intro w
  have spared := spares w.disk
  rw [outcome_onDisk]
  rcases run : outcome work w.disk with ⟨e | a, d'⟩ <;> rw [run] at spared <;> exact ⟨[], rfl, fun _ => spared⟩

theorem world_onDisk_pure (work : DiskM α) (b : β) (w : World) :
    (outcome (Op.onDisk work >>= fun _ => pure b) w).2 = { w with disk := (outcome work w.disk).2 } := by
  rw [outcome_bind, outcome_onDisk]
  rcases outcome work w.disk with ⟨_ | _, _⟩ <;> rfl

theorem spares_leavePair {f : Path} (sound : d.WellFormed) (privateFile : Apart loose d true f kept)
    (publicFile : Apart loose d true (f ++ ".pub") kept) (files : KeyFiles) :
    Disk.Spares loose kept d (leavePair f files) := by
  have left (g : Path) (text : Option String) (apart : Apart loose d true g kept) :
      Disk.Spares loose kept d (leaveText g text) := by
    cases text with
    | none => exact .pure ()
    | some s => exact spares_writeThrough sound apart _
  exact .bind (left f _ privateFile) fun _ => left _ _ publicFile

theorem spares_call (sound : d.WellFormed) (program : String) (args : List String) (stdin : Option String) :
    Moves (World.Spares loose kept d) (Op.call program args stdin) := by
  intro w
  have called : World.Spares loose kept d w (w.called ⟨program, args, stdin⟩) :=
    ⟨[⟨program, args, stdin⟩], rfl, fun _ spared => spared⟩
  rw [outcome_call]
  split
  · exact .refl
  split
  · exact .refl
  split
  · exact called
  · exact called
  rename_i output files _
  split
  · rename_i f told
    -- that its files stay apart is known of the call as one of those made
    rw [world_onDisk_pure]
    refine ⟨[⟨program, args, stdin⟩], rfl, fun clear spared => ?_⟩
    obtain ⟨privateFile, publicFile⟩ := clear _ List.mem_cons_self f told
    exact spares_leavePair sound privateFile publicFile files w.disk spared
  · exact called

end Op

namespace Lifecycle

open Op Time

variable {loose : Path → Prop} {kept vault : Path} {d : Disk} (sound : d.WellFormed)

include sound

theorem spares_generate (vault : Path) (req : NewKey) (now : Instant) :
    Moves (World.Spares loose kept d) (generate vault req now) := by
  refine spares_bind (fun _ => .refl) fun w => spares_ofExcept fun bits _ => ?_
  refine spares_bind (spares_onDisk (.bind (spares_ensureDirectory sound _) fun _ =>
    spares_setMode sound _ _)) fun _ => ?_
  refine spares_bind (spares_call sound _ _ _) fun output => spares_ofExcept fun _ _ => ?_
  refine spares_bind (spares_onDisk (spares_setMode sound _ _)) fun _ => ?_
  refine spares_bind (fun _ => .refl) fun d' => spares_ofExcept fun pub _ => spares_ofExcept fun expiresAt _ => ?_
  exact spares_bind (spares_edit _) fun _ => spares_pure _

theorem spares_rotate (vault : Path) (req : Rotation) (now : Instant) :
    Moves (World.Spares loose kept d) (rotate vault req now) := by
  refine spares_bind (spares_of_still (Op.still_ask _)) fun old => ?_
  refine spares_bind (spares_of_still Op.still_inventory) fun inv => ?_
  refine spares_bind (spares_of_still Op.still_disk) fun d' => ?_
  refine spares_bind (spares_generate sound vault _ now) fun _ => ?_
  exact spares_bind (spares_edit _) fun _ => spares_bind (spares_edit _) fun _ _ => .of_same rfl rfl

theorem spares_publicLineOf (req : ImportedKey) : Moves (World.Spares loose kept d) (publicLineOf req) := by
  unfold publicLineOf
  dsimp only
  split
  · exact spares_pure _
  refine spares_bind (spares_of_still Op.still_disk) fun d' => ?_
  split
  · exact spares_bind (spares_onDisk (.ask _)) fun _ => spares_pure _
  · refine spares_bind ?_ fun _ => spares_pure _
    exact spares_bind (spares_call sound _ _ _) fun output => spares_ofExcept fun _ _ => spares_pure _

/-- Of the paths in the directory of keys, the copy of a public half is the one that is written as a whole. -/
theorem spares_importKey (apart : ∀ f, loose f → Apart loose d false f kept)
    (named : ∀ name, Name.isName name = true → loose (Layout.publicFile vault name)) (req : ImportedKey)
    (now : Instant) : Moves (World.Spares loose kept d) (importKey vault req now) := by
  refine spares_bind (fun _ => .refl) fun w => spares_ofExcept fun _ checked => ?_
  refine spares_bind (spares_publicLineOf sound req) fun ⟨line, found⟩ => spares_ofExcept fun pub _ => ?_
  refine spares_bind (spares_of_still (Op.still_ask _)) fun _ => spares_bind ?_ fun publicFile => ?_
  · unfold keepPublicFile
    cases found with
    | some path => exact spares_pure _
    | none =>
      have isLoose := named req.name (isName_of_checkImport checked)
      refine spares_bind (spares_onDisk ?_) fun _ => spares_pure _
      exact .bind (spares_ensureDirectory sound _) fun _ => spares_writeWhole sound isLoose (apart _ isLoose) _
  · refine spares_bind (spares_of_still Op.still_disk) fun d' => spares_ofExcept fun createdAt _ => ?_
    exact spares_ofExcept fun expiresAt _ => spares_bind (spares_edit _) fun _ => spares_pure _

theorem spares_deleteFile {f : Path} (isLoose : loose f) (apart : Apart loose d false f kept) :
    Disk.Spares loose kept d (deleteFile f) := by
  refine .bind .get fun d' => ?_
  split
  · exact spares_removeFile sound isLoose apart
  · exact .pure ()

theorem spares_removeKey (apart : ∀ f, loose f → Apart loose d false f kept) {w : World}
    (recorded : ∀ f ∈ w.inventory.files, loose f) (name : String) (force deleteFiles : Bool) :
    World.Spares loose kept d w (outcome (removeKey vault name force deleteFiles) w).2 := by
  have deletes : ∀ f ∈ doomed vault w name force deleteFiles, Disk.Spares loose kept d (deleteFile f) := by
    intro f member
    have isLoose := recorded f (mem_files_of_doomed member)
    exact spares_deleteFile sound isLoose (apart f isLoose)
  unfold removeKey
  rw [outcome_bind, Op.outcome_edit_made (InventoryM.atomic_removeKey _ _), ← Inventory.removeKey]
  rcases removed : w.inventory.removeKey name force with e | ⟨k, inv'⟩
  · exact .refl
  simp only [doomed, removed] at deletes ⊢
  cases deleteFiles with
  | false => exact .of_same rfl rfl
  | true =>
    have edited : World.Spares loose kept d w { w with inventory := inv' } := .of_same rfl rfl
    simp only [if_true] at deletes ⊢
    rw [outcome_bind, Op.outcome_disk]
    exact edited.trans (spares_bind (spares_onDisk (.forM deletes)) (fun _ => spares_pure k) _)

end Lifecycle

namespace Remote

open Op Time

variable {loose : Path → Prop} {kept : Path} {d : Disk} (sound : d.WellFormed)

theorem spares_addHost (req : NewHost) (here : Option String) (now : Instant) :
    Moves (World.Spares loose kept d) (addHost req here now) :=
  spares_ofExcept fun _ _ => spares_bind (spares_edit _) fun _ => spares_pure _

include sound

theorem spares_testConnection (label : String) (timeoutSecs : Nat) (now : Instant) :
    Moves (World.Spares loose kept d) (testConnection label timeoutSecs now) := by
  refine spares_bind (spares_of_still Op.still_inventory) fun inv => spares_ofExcept fun h _ => ?_
  refine spares_bind (spares_call sound _ _ _) fun output => ?_
  exact spares_bind (spares_edit _) fun _ => spares_pure _

theorem spares_deploy (key label : String) (auth : Option String) (now : Instant) :
    Moves (World.Spares loose kept d) (deploy key label auth now) := by
  refine spares_bind (spares_of_still Op.still_inventory) fun inv => spares_ofExcept fun k _ => ?_
  refine spares_ofExcept fun h _ => spares_ofExcept fun a _ => ?_
  refine spares_bind (spares_call sound _ _ _) fun output => ?_
  dsimp only
  split
  · exact Moves.throw (fun _ => .refl) _
  · exact spares_edit _

theorem spares_verify (key label : String) (timeoutSecs : Nat) (now : Instant) :
    Moves (World.Spares loose kept d) (verify key label timeoutSecs now) := by
  refine spares_bind (spares_of_still Op.still_inventory) fun inv => spares_ofExcept fun pair _ => ?_
  refine spares_bind (spares_call sound _ _ _) fun output => ?_
  split
  · exact spares_bind (spares_edit _) fun _ => spares_pure _
  · exact spares_pure _
  · exact Moves.throw (fun _ => .refl) _

theorem spares_revoke (key label : String) (timeoutSecs : Nat) :
    Moves (World.Spares loose kept d) (revoke key label timeoutSecs) := by
  refine spares_bind (spares_of_still Op.still_inventory) fun inv => spares_ofExcept fun pair _ => ?_
  refine spares_bind (spares_call sound _ _ _) fun output => ?_
  dsimp only
  split
  · exact Moves.throw (fun _ => .refl) _
  · exact spares_bind (spares_edit _) fun _ => spares_pure _

end Remote

/-- Every request spares a file that stays apart from those of the keys on record, from the copies of public
halves that the vault keeps, and from what `ssh-keygen` is told to make. -/
theorem Request.spares {loose : Path → Prop} {kept vault : Path} {d : Disk} {w : World} (sound : d.WellFormed)
    (apart : ∀ f, loose f → Apart loose d false f kept)
    (named : ∀ name, Name.isName name = true → loose (Layout.publicFile vault name))
    (recorded : ∀ f ∈ w.inventory.files, loose f) (r : Request) :
    World.Spares loose kept d w (r.after vault w) := by
  unfold Request.after
  cases r <;> simp only [Request.run, outcome_discard]
  case generate req now => exact Lifecycle.spares_generate sound vault req now w
  case importKey req now => exact Lifecycle.spares_importKey sound apart named req now w
  case rotate req now => exact Lifecycle.spares_rotate sound vault req now w
  case revokeKey name => exact Op.spares_edit _ w
  case setExpiry name ttlDays now => exact Op.spares_edit _ w
  case removeKey name force deleteFiles =>
    exact Lifecycle.spares_removeKey sound apart recorded name force deleteFiles
  case addHost req here now => exact Remote.spares_addHost req here now w
  case updateHost label change => exact Op.spares_edit _ w
  case removeHost label => exact Op.spares_edit _ w
  case testConnection label timeoutSecs now => exact Remote.spares_testConnection sound label timeoutSecs now w
  case deploy key label auth now => exact Remote.spares_deploy sound key label auth now w
  case markDeployed key label now => exact Op.spares_edit _ w
  case verify key label timeoutSecs now => exact Remote.spares_verify sound key label timeoutSecs now w
  case revoke key label timeoutSecs => exact Remote.spares_revoke sound key label timeoutSecs w

end Keyring

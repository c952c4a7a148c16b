import Keyring.CommandLine.Console
import Keyring.Proofs.Operation.Transcript

/-!
# Commands and the world

How a command moves the world that it works on: an operation inside it as it would by
itself, a report not at all, and the inventory written back by work on files only.
-/

namespace Keyring.CommandLine

variable {α β : Type} {R : World → World → Prop}

theorem outcome_perform (op : Op α) (c : Console) :
    outcome (perform op) c = match outcome op c.world with
      | (.ok a, w) => (.ok a, { c with world := w })
      | (.error e, w) => (.error (Failure.ofError e), { c with world := w }) := by
  rw [perform, outcome_bind, outcome_get]
  dsimp only
  rcases h : outcome op c.world with ⟨e | a, w⟩
  · rw [outcome] at h
    rw [h]
    rfl
  · rw [outcome] at h
    rw [h]
    rfl

theorem outcome_performFor (doing : String) (op : Op α) (c : Console) :
    outcome (performFor doing op) c = match outcome op c.world with
      | (.ok a, w) => (.ok a, { c with world := w })
      | (.error e, w) => (.error ((Failure.ofError e).within doing), { c with world := w }) := by
  have caught : performFor doing op = tryCatch (perform op) fun e => throw (e.within doing) := rfl
  rw [caught, outcome_tryCatch, outcome_perform]
  rcases outcome op c.world with ⟨e | a, w⟩
  · rfl
  · rfl

theorem outcome_performFor_ok_iff {doing : String} {op : Op α} {a : α} {c c' : Console} :
    outcome (performFor doing op) c = (.ok a, c') ↔ outcome (perform op) c = (.ok a, c') := by
  rw [outcome_performFor, outcome_perform]
  rcases outcome op c.world with ⟨e | b, w⟩ <;> simp

theorem outcome_attempt (op : Op α) (c : Console) :
    outcome (attempt op) c = match outcome op c.world with
      | (.ok a, w) => (.ok (.ok a), { c with world := w })
      | (.error e, w) => (if e.isPanic then .error (Failure.ofError e) else .ok (.error e), { c with world := w }) := by
  rw [attempt, outcome_bind, outcome_get]
  dsimp only
  rcases h : outcome op c.world with ⟨e | a, w⟩
  · rw [outcome] at h
    rw [h]
    dsimp only
    split <;> rfl
  · rw [outcome] at h
    rw [h]
    rfl

theorem outcome_now (c : Console) : outcome now c = (.ok c.clock.now, { c with clock := c.clock.later }) := rfl

/-- The operation is told what the clock shows before it. -/
theorem outcome_performNow (op : Time.Instant → Op α) (c : Console) :
    outcome (performNow op) c = outcome (perform (op c.clock.now)) { c with clock := c.clock.later } := by
  rw [performNow, outcome_bind, outcome_now]

theorem outcome_disk (c : Console) : outcome (disk : Cli Disk) c = (.ok c.world.disk, c) := rfl

theorem outcome_inventory (c : Console) : outcome (inventory : Cli Inventory) c = (.ok c.world.inventory, c) := rfl

/-- A command that moves the world along a relation, whatever it says. -/
def MovesWorld (R : World → World → Prop) (command : Cli α) : Prop :=
  Moves (fun c c' : Console => R c.world c'.world) command

theorem MovesWorld.bind (trans : ∀ {w w' w''}, R w w' → R w' w'' → R w w'') {x : Cli α} {f : α → Cli β}
    (first : MovesWorld R x) (next : ∀ a, MovesWorld R (f a)) : MovesWorld R (x >>= f) :=
  Moves.bind (R := fun c c' : Console => R c.world c'.world) trans first next

theorem MovesWorld.of_still (refl : ∀ w, R w w) {command : Cli α} (still : Still command) :
    MovesWorld R command := still.moves fun c => refl c.world

theorem MovesWorld.pure (refl : ∀ w, R w w) (a : α) : MovesWorld R (Pure.pure a : Cli α) :=
  fun c => refl c.world

theorem MovesWorld.mapM (refl : ∀ w, R w w) (trans : ∀ {w w' w''}, R w w' → R w' w'' → R w w'')
    {f : α → Cli β} (each : ∀ a, MovesWorld R (f a)) (items : List α) : MovesWorld R (items.mapM f) :=
  Moves.mapM (R := fun c c' : Console => R c.world c'.world) (fun c => refl c.world) trans each items

theorem movesWorld_perform {op : Op α} (moves : Moves R op) : MovesWorld R (perform op) := by
  intro c
  have moved := moves c.world
  rw [outcome_perform]
  rcases h : outcome op c.world with ⟨e | a, w⟩
  · rwa [h] at moved
  · rwa [h] at moved

theorem movesWorld_performFor {op : Op α} (doing : String) (moves : Moves R op) :
    MovesWorld R (performFor doing op) := by
  intro c
  have moved := moves c.world
  rw [outcome_performFor]
  rcases h : outcome op c.world with ⟨e | a, w⟩
  · rwa [h] at moved
  · rwa [h] at moved

theorem movesWorld_performNow {op : Time.Instant → Op α} (moves : ∀ t, Moves R (op t)) :
    MovesWorld R (performNow op) := by
  intro c
  rw [outcome_performNow]
  exact movesWorld_perform (moves c.clock.now) { c with clock := c.clock.later }

theorem outcome_ofExcept (r : Except Error α) (c : Console) :
    outcome (ofExcept r) c = (r.mapError Failure.ofError, c) := by
  rw [ofExcept, outcome_perform, Op.outcome_ofExcept]
  cases r <;> rfl

theorem still_ofExcept (r : Except Error α) : Still (ofExcept r) := by
  intro c
  rw [outcome_ofExcept]

theorem outcome_loadSettings (setting : Setting) (c : Console) :
    outcome (loadSettings setting) c = match Store.loadSettings c.world.disk setting.vault with
      | .ok settings => (.ok settings, c)
      | .error e => (.error ((Failure.ofError e).within "failed to load config"), c) := by
  rw [loadSettings, outcome_bind, outcome_disk]
  dsimp only
  rw [outcome_performFor, Op.outcome_ofExcept]
  cases Store.loadSettings c.world.disk setting.vault <;> rfl

/-- The settings are read, and nothing else is done. -/
theorem still_loadSettings (setting : Setting) : Still (loadSettings setting) := by
  intro c
  rw [outcome_loadSettings]
  split <;> rfl

theorem movesWorld_openInventory (setting : Setting) : MovesWorld Silent (openInventory setting) := by
  unfold openInventory
  refine MovesWorld.bind (R := Silent) .trans (fun c => .refl c.world) fun path => ?_
  refine MovesWorld.bind (R := Silent) .trans (fun c => .refl c.world) fun d => ?_
  have loaded : ∀ r : Except Error Inventory, Op.Quiet (Op.ofExcept r) := fun r => .of_still (Op.still_ofExcept r)
  refine MovesWorld.bind (R := Silent) .trans (movesWorld_performFor _ (loaded _)) fun inv => ?_
  refine MovesWorld.bind (R := Silent) .trans (movesWorld_perform (Op.Quiet.setInventory inv)) fun _ => ?_
  exact .pure .refl path

/-- Nothing happened but work on files: the inventory in memory is the same, and no tool was called. -/
structure FilesOnly (w w' : World) : Prop where
  inventory : w'.inventory = w.inventory
  silent : Silent w w'

theorem filesOnly_onDisk (work : DiskM α) : Moves FilesOnly (Op.onDisk work) := fun w =>
  ⟨Op.KeepsInventory.onDisk work w, Op.Quiet.onDisk work w⟩

theorem movesWorld_saveInventory (path : Path) : MovesWorld FilesOnly (saveInventory path) := by
  intro c
  unfold saveInventory keepInventory
  rw [outcome_bind, outcome_inventory]
  exact movesWorld_performFor _ (filesOnly_onDisk _) c

theorem world_report (setting : Setting) (data : Data) (lines : List String) (c : Console) :
    (outcome (report setting data lines) c).2.world = c.world := by
  have said : ∀ lines : List String, Moves (fun c c' : Console => c'.world = c.world) (lines.forM say) := by
    intro lines
    induction lines with
    | nil => exact fun c => rfl
    | cons line rest ih => exact Moves.bind (fun ab bc => bc.trans ab) (fun c => rfl) fun _ => ih
  unfold report
  split
  · rfl
  · exact said lines c

end Keyring.CommandLine

import Keyring.Proofs.Inventory.Edited
import Keyring.World

/-!
# Outcomes

What the steps of operations answer and the world that they leave. An operation
commits a change of the inventory when it succeeds and leaves the inventory alone
when it fails.
-/

namespace Keyring

namespace World

/-- How the next call will end. -/
def reply (w : World) : Reply := w.replies.headD w.usualReply

/-- The world when a call has been made and its reply taken. -/
def called (w : World) (c : Call) : World :=
  { w with calls := c :: w.calls, replies := w.replies.tail }

end World

namespace Op

variable {α β : Type}

@[simp] theorem outcome_inventory (w : World) : outcome Op.inventory w = (.ok w.inventory, w) := rfl

@[simp] theorem outcome_disk (w : World) : outcome Op.disk w = (.ok w.disk, w) := rfl

@[simp] theorem outcome_setInventory (inv : Inventory) (w : World) :
    outcome (Op.setInventory inv) w = (.ok (), { w with inventory := inv }) := rfl

@[simp] theorem outcome_ofExcept (r : Except Error α) (w : World) :
    outcome (Op.ofExcept r) w = (r, w) := by cases r <;> rfl

theorem outcome_ask (question : Inventory → Except Error α) (w : World) :
    outcome (Op.ask question) w = (question w.inventory, w) := by
  rw [Op.ask, outcome_bind, outcome_inventory]
  exact outcome_ofExcept _ w

theorem outcome_edit (work : InventoryM α) (w : World) :
    outcome (Op.edit work) w =
      ((outcome work w.inventory).1, { w with inventory := (outcome work w.inventory).2 }) := by
  rw [Op.edit, outcome_bind, outcome_get]
  exact outcome_ofExcept _ { w with inventory := (outcome work w.inventory).2 }

/-- Nothing but the inventory is touched by an edit, whatever its answer is. -/
theorem moves_edit {R : World → World → Prop} (edited : ∀ w inv, R w { w with inventory := inv })
    (work : InventoryM α) : Moves R (Op.edit work) := by
  intro w
  rw [outcome_edit]
  exact edited w _

/-- An edit that looks first leaves the world as it is when it fails. -/
theorem outcome_edit_made {work : InventoryM α} (atomic : Atomic work) (w : World) :
    outcome (Op.edit work) w = match work.made w.inventory with
      | .ok (a, inv) => (.ok a, { w with inventory := inv })
      | .error e => (.error e, w) := by
  rw [outcome_edit, InventoryM.outcome_eq_made atomic]
  rcases work.made w.inventory with e | ⟨a, inv⟩ <;> rfl

theorem outcome_edit_changed {work : InventoryM Unit} (atomic : Atomic work) (w : World) :
    outcome (Op.edit work) w = match work.changed w.inventory with
      | .ok inv => (.ok (), { w with inventory := inv })
      | .error e => (.error e, w) := by
  rw [outcome_edit_made atomic, InventoryM.changed]
  rcases work.made w.inventory with e | ⟨_, inv⟩ <;> rfl

theorem outcome_onDisk (work : DiskM α) (w : World) :
    outcome (Op.onDisk work) w = match outcome work w.disk with
      | (.ok a, d) => (.ok a, { w with disk := d })
      | (.error e, d) => (.error (.fileAccess e), { w with disk := d }) := by
  rw [Op.onDisk, outcome_bind, outcome_get]
  dsimp only
  rcases h : outcome work w.disk with ⟨e | a, d⟩ <;> rw [outcome] at h <;> rw [h] <;> rfl

theorem still_inventory : Still Op.inventory := fun _ => rfl

theorem still_disk : Still Op.disk := fun _ => rfl

theorem still_ofExcept (r : Except Error α) : Still (Op.ofExcept r) := by
  intro w
  rw [outcome_ofExcept]

theorem still_ask (question : Inventory → Except Error α) : Still (Op.ask question) := by
  intro w
  rw [outcome_ask]

theorem outcome_nextReply (w : World) :
    outcome Op.nextReply w = (.ok w.reply, { w with replies := w.replies.tail }) := by
  rw [Op.nextReply, outcome_modifyGet]
  obtain ⟨inventory, disk, installed, passesNul, replies, usualReply, calls⟩ := w
  cases replies <;> rfl

/-- The file of a text, where there is a text. -/
def leaveText (path : Path) (text : Option String) : DiskM Unit :=
  match text with
  | some s => Disk.writeThrough path (.text s)
  | none => pure ()

/-- The files of a key that a tool has made are left one after the other. -/
def leavePair (path : Path) (made : KeyFiles) : DiskM Unit := do
  leaveText path made.privateText
  leaveText (path ++ ".pub") made.publicText

theorem outcome_leaveKeyFiles (path : Path) (made : KeyFiles) (w : World) :
    outcome (Op.leaveKeyFiles path made) w = outcome (Op.onDisk (leavePair path made)) w := by
  obtain ⟨privateText, publicText⟩ := made
  cases privateText <;> cases publicText <;>
    simp only [Op.leaveKeyFiles, leavePair, leaveText, pure_bind, outcome_bind, outcome_onDisk,
      outcome_pure]
  · rcases outcome (Disk.writeThrough path _) w.disk with ⟨_ | _, _⟩ <;> rfl
  · rcases outcome (Disk.writeThrough path _) w.disk with ⟨_ | _, _⟩ <;> rfl

/-- A call is refused, or it is made and ends as its reply says. -/
theorem outcome_call (program : String) (args : List String) (stdin : Option String) (w : World) :
    outcome (Op.call program args stdin) w =
      if !w.installed.contains program then (.error (.toolNotInstalled program), w)
      else if (Call.mk program args stdin).hasNul && !w.passesNul then
        (.error (.toolFailed program Call.nulMessage), w)
      else match w.reply with
        | .absent => (.error (.toolNotInstalled program), w.called ⟨program, args, stdin⟩)
        | .fails reason => (.error (.toolFailed program reason), w.called ⟨program, args, stdin⟩)
        | .ran output files =>
          match (Call.mk program args stdin).madeKey? with
          | some path =>
            outcome (Op.onDisk (leavePair path files) >>= fun _ => pure output)
              (w.called ⟨program, args, stdin⟩)
          | none => (.ok output, w.called ⟨program, args, stdin⟩) := by
  unfold Op.call
  by_cases missing : (!w.installed.contains program) = true
  · simp only [outcome_bind, outcome_get, missing, ↓reduceIte, outcome_throw]
  by_cases nul : ((Call.mk program args stdin).hasNul && !w.passesNul) = true
  · simp only [outcome_bind, outcome_get, missing, nul, ↓reduceIte, outcome_throw,
      Bool.false_eq_true]
  have reached : outcome Op.nextReply
      { w with calls := ⟨program, args, stdin⟩ :: w.calls } =
        (.ok w.reply, w.called ⟨program, args, stdin⟩) := outcome_nextReply _
  simp only [outcome_bind, outcome_get, missing, nul, ↓reduceIte, outcome_modify, reached,
    Bool.false_eq_true]
  cases w.reply with
  | absent => rfl
  | fails reason => rfl
  | ran output files =>
    cases (Call.mk program args stdin).madeKey? with
    | none => rfl
    | some path => simp only [outcome_bind, outcome_leaveKeyFiles]

/-- The inventory stays what it is, whatever the answer is. -/
def KeepsInventory (op : Op α) : Prop := Moves (fun w w' : World => w'.inventory = w.inventory) op

namespace KeepsInventory

theorem bind {x : Op α} {f : α → Op β} (first : KeepsInventory x)
    (next : ∀ a, KeepsInventory (f a)) : KeepsInventory (x >>= f) :=
  Moves.bind (fun ab bc => bc.trans ab) first next

theorem pure (a : α) : KeepsInventory (Pure.pure a : Op α) := fun _ => rfl

theorem get : KeepsInventory (MonadState.get : Op World) := fun _ => rfl

theorem disk : KeepsInventory Op.disk := still_disk.moves fun _ => rfl

theorem ofExcept (r : Except Error α) : KeepsInventory (Op.ofExcept r) :=
  (still_ofExcept r).moves fun _ => rfl

theorem ask (question : Inventory → Except Error α) : KeepsInventory (Op.ask question) :=
  (still_ask question).moves fun _ => rfl

theorem onDisk (work : DiskM α) : KeepsInventory (Op.onDisk work) := by
  intro w
  rw [outcome_onDisk]
  rcases outcome work w.disk with ⟨_ | _, _⟩ <;> rfl

end KeepsInventory

theorem keepsInventory_call (program : String) (args : List String) (stdin : Option String) :
    KeepsInventory (Op.call program args stdin) := by
  intro w
  rw [outcome_call]
  split
  · rfl
  split
  · rfl
  split
  · rfl
  · rfl
  split
  · exact KeepsInventory.bind (KeepsInventory.onDisk _) (fun _ => KeepsInventory.pure _) _
  · rfl

/-! ## Committing -/

/-- From an inventory, an operation that fails leaves it alone, and one that succeeds has the answer
and the inventory that are described. -/
def Commits (inv : Inventory) (Q : α → Inventory → Prop) (op : Op α) : Prop :=
  ∀ w : World, w.inventory = inv → match outcome op w with
    | (.ok a, w') => Q a w'.inventory
    | (.error _, w') => w'.inventory = inv

namespace Commits

variable {inv : Inventory} {Q : β → Inventory → Prop}

theorem pure {b : β} (holds : Q b inv) : Commits inv Q (Pure.pure b : Op β) := by
  intro w same
  simpa [same] using holds

theorem ofExcept {r : Except Error α} {f : α → Op β} (next : ∀ a, r = .ok a → Commits inv Q (f a)) :
    Commits inv Q (Op.ofExcept r >>= f) := by
  intro w same
  rw [outcome_bind, outcome_ofExcept]
  cases r with
  | error e => exact same
  | ok a => exact next a rfl w same

theorem get {f : World → Op β} (next : ∀ w, w.inventory = inv → Commits inv Q (f w)) :
    Commits inv Q (MonadState.get >>= f) := by
  intro w same
  rw [outcome_bind, outcome_get]
  exact next w same w same

theorem inventory {f : Inventory → Op β} (next : Commits inv Q (f inv)) :
    Commits inv Q (Op.inventory >>= f) := by
  intro w same
  rw [outcome_bind, outcome_inventory, same]
  exact next w same

theorem ask {question : Inventory → Except Error α} {f : α → Op β}
    (next : ∀ a, question inv = .ok a → Commits inv Q (f a)) :
    Commits inv Q (Op.ask question >>= f) := by
  intro w same
  rw [outcome_bind, outcome_ask, same]
  cases h : question inv with
  | error e => exact same
  | ok a => exact next a h w same

/-- Work that leaves the inventory alone comes first. -/
theorem after {x : Op α} {f : α → Op β} (keeps : KeepsInventory x)
    (next : ∀ a, Commits inv Q (f a)) : Commits inv Q (x >>= f) := by
  intro w same
  have kept := keeps w
  rw [outcome_bind]
  rcases h : outcome x w with ⟨e | a, w'⟩
  · simpa [h, same] using kept
  · exact next a w' (by simpa [h, same] using kept)

/-- Work that leaves the inventory alone is all there is. -/
theorem ofKept {op : Op β} (keeps : KeepsInventory op) (holds : ∀ b, Q b inv) : Commits inv Q op := by
  intro w same
  have kept := keeps w
  rcases run : outcome op w with ⟨e | b, w'⟩
  · simpa [run, same] using kept
  · rw [run] at kept
    have stays : w'.inventory = inv := kept.trans same
    simpa [stays] using holds b

/-- An operation that commits comes first, and what follows cannot fail. -/
theorem andThen {P : α → Inventory → Prop} {x : Op α} {f : α → Op β} (first : Commits inv P x)
    (next : ∀ a w, P a w.inventory → ∃ b w', outcome (f a) w = (.ok b, w') ∧ Q b w'.inventory) :
    Commits inv Q (x >>= f) := by
  intro w same
  have committed := first w same
  rw [outcome_bind]
  rcases h : outcome x w with ⟨e | a, w'⟩
  · simpa [h] using committed
  · obtain ⟨b, u, run, holds⟩ := next a w' (by simpa [h] using committed)
    simpa [run] using holds

/-- What is known of an answer and its inventory may be weakened. -/
theorem mono {P : β → Inventory → Prop} {op : Op β} (commits : Commits inv P op)
    (weaker : ∀ b inv', P b inv' → Q b inv') : Commits inv Q op := by
  intro w same
  have done := commits w same
  rcases run : outcome op w with ⟨e | b, w'⟩
  · simpa [run] using done
  · rw [run] at done
    exact weaker b _ done

/-- An edit that looks first commits what it makes. -/
theorem made {work : InventoryM β} (atomic : Atomic work)
    (holds : ∀ b inv', work.made inv = .ok (b, inv') → Q b inv') : Commits inv Q (Op.edit work) := by
  intro w same
  rw [outcome_edit_made atomic, same]
  rcases h : work.made inv with e | ⟨b, inv'⟩
  · exact same
  · exact holds b inv' h

theorem changed {work : InventoryM Unit} {Q : Unit → Inventory → Prop} (atomic : Atomic work)
    (holds : ∀ inv', work.changed inv = .ok inv' → Q () inv') : Commits inv Q (Op.edit work) := by
  refine made atomic fun _ inv' makes => holds inv' ?_
  rw [InventoryM.changed, makes]
  rfl

theorem changedThen {work : InventoryM Unit} {b : β} (atomic : Atomic work)
    (holds : ∀ inv', work.changed inv = .ok inv' → Q b inv') :
    Commits inv Q (Op.edit work >>= fun _ => Pure.pure b) :=
  andThen (P := fun _ inv' => work.changed inv = .ok inv') (changed atomic fun _ h => h)
    fun _ w done => ⟨b, w, rfl, holds _ done⟩

/-- What is left is the inventory that there was, or one as described. -/
theorem inventory_or {w : World} {P : Inventory → Prop} {op : Op α}
    (commits : Commits w.inventory (fun _ inv' => P inv') op) :
    (outcome op w).2.inventory = w.inventory ∨ P (outcome op w).2.inventory := by
  have done := commits w rfl
  rcases run : outcome op w with ⟨e | a, w'⟩
  · rw [run] at done
    exact .inl done
  · rw [run] at done
    exact .inr done

/-- What holds of the inventory before, and of every one committed, holds in any case. -/
theorem keeps {w : World} {P : Inventory → Prop} {op : Op α}
    (commits : Commits w.inventory (fun _ inv' => P inv') op) (before : P w.inventory) :
    P (outcome op w).2.inventory := by
  rcases commits.inventory_or with same | holds
  · rw [same]
    exact before
  · exact holds

end Commits

end Op

end Keyring

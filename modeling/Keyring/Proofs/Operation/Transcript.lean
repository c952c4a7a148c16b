import Keyring.Lifecycle.Rotate
import Keyring.Proofs.Operation.Outcome
import Keyring.Remote.Deploy

/-!
# Transcripts

What is asked of the tools between two worlds, with the replies, in the order of the
calls. The replies are those that the first world has ready. Transcripts of two stretches
of work in a row are put together by appending them.
-/

namespace Keyring

/-- The replies that a world has ready for so many calls. -/
def World.upcoming (w : World) (n : Nat) : List Reply :=
  (List.range n).map fun i => (w.replies[i]?).getD w.usualReply

/-- The calls with their replies that lead from one world to another, the first call first. -/
structure Transcript (w : World) (log : List (Call × Reply)) (w' : World) : Prop where
  calls : w'.calls = (log.map (·.1)).reverse ++ w.calls
  replies : log.map (·.2) = w.upcoming log.length
  left : w'.replies = w.replies.drop log.length
  usual : w'.usualReply = w.usualReply

variable {α β : Type} {w w' w'' : World} {log more : List (Call × Reply)}

theorem Transcript.of_same (calls : w'.calls = w.calls) (left : w'.replies = w.replies)
    (usual : w'.usualReply = w.usualReply) : Transcript w [] w' where
  calls := calls
  replies := rfl
  left := left
  usual := usual

theorem Transcript.refl (w : World) : Transcript w [] w := .of_same rfl rfl rfl

theorem World.upcoming_add {m : Nat} (n : Nat) (left : w'.replies = w.replies.drop m)
    (usual : w'.usualReply = w.usualReply) : w.upcoming (m + n) = w.upcoming m ++ w'.upcoming n := by
  unfold upcoming
  rw [List.range_add, List.map_append, List.map_map]
  congr 1
  refine List.map_congr_left fun i _ => ?_
  rw [Function.comp_apply, left, usual, List.getElem?_drop]

theorem Transcript.append (first : Transcript w log w') (second : Transcript w' more w'') :
    Transcript w (log ++ more) w'' where
  calls := by
    rw [second.calls, first.calls, List.map_append, List.reverse_append, List.append_assoc]
  replies := by
    rw [List.map_append, List.length_append, first.replies, second.replies,
      World.upcoming_add more.length first.left first.usual]
  left := by rw [second.left, first.left, List.drop_drop, List.length_append]
  usual := second.usual.trans first.usual

theorem transcript_called (w : World) (c : Call) : Transcript w [(c, w.reply)] (w.called c) where
  calls := rfl
  replies := by
    have next : (w.replies[0]?).getD w.usualReply = w.reply := by
      cases ready : w.replies with
      | nil => simp [World.reply, ready]
      | cons reply rest => simp [World.reply, ready]
    simp [World.upcoming, next]
  left := by simp [World.called]
  usual := rfl

/-- No tool was called. -/
abbrev Silent (w w' : World) : Prop := Transcript w [] w'

theorem Silent.trans (first : Silent w w') (second : Silent w' w'') : Silent w w'' := first.append second

/-- An operation that calls no tool, whatever its answer is. -/
def Op.Quiet (op : Op α) : Prop := Moves Silent op

namespace Op.Quiet

theorem bind {x : Op α} {f : α → Op β} (first : Quiet x) (next : ∀ a, Quiet (f a)) : Quiet (x >>= f) :=
  Moves.bind (R := Silent) .trans first next

theorem of_still {op : Op α} (still : Still op) : Quiet op := still.moves .refl

theorem pure (a : α) : Quiet (Pure.pure a : Op α) := of_still fun _ => rfl

theorem throw (e : Error) : Quiet (throwThe Error e : Op α) := of_still fun _ => rfl

theorem setInventory (inv : Inventory) : Quiet (Op.setInventory inv) := fun _ => .of_same rfl rfl rfl

theorem edit (work : InventoryM α) : Quiet (Op.edit work) :=
  moves_edit (fun _ _ => .of_same rfl rfl rfl) work

theorem onDisk (work : DiskM α) : Quiet (Op.onDisk work) := by
  intro w
  rw [outcome_onDisk]
  rcases outcome work w.disk with ⟨_ | _, _⟩
  · exact .of_same rfl rfl rfl
  · exact .of_same rfl rfl rfl

end Op.Quiet

/-- A call of a tool is refused without being made, or is all that is asked; it has an answer only if
the tool ran. -/
theorem Op.call_transcript (program : String) (args : List String) (stdin : Option String) (w : World) :
    ∃ log, Transcript w log (outcome (Op.call program args stdin) w).2 ∧
      (log = [] ∨ ∃ reply, log = [(⟨program, args, stdin⟩, reply)]) ∧
      ∀ output, (outcome (Op.call program args stdin) w).1 = .ok output →
        ∃ made, log = [(⟨program, args, stdin⟩, .ran output made)] := by
  have called := transcript_called w ⟨program, args, stdin⟩
  rw [outcome_call]
  split
  · exact ⟨[], .refl w, .inl rfl, nofun⟩
  split
  · exact ⟨[], .refl w, .inl rfl, nofun⟩
  split
  · exact ⟨_, called, .inr ⟨_, rfl⟩, nofun⟩
  · exact ⟨_, called, .inr ⟨_, rfl⟩, nofun⟩
  · rename_i output files ran
    rw [ran] at called
    split
    · -- the files that the tool leaves are no calls
      rename_i path made
      have files_ := Op.Quiet.onDisk (leavePair path files) (w.called ⟨program, args, stdin⟩)
      rw [outcome_bind]
      rcases left : outcome (Op.onDisk (leavePair path files)) (w.called ⟨program, args, stdin⟩)
        with ⟨e | u, w'⟩
      · rw [left] at files_
        exact ⟨_, called.append files_, .inr ⟨_, rfl⟩, nofun⟩
      · rw [left] at files_
        refine ⟨_, called.append files_, .inr ⟨_, rfl⟩, ?_⟩
        rintro _ ⟨⟩
        exact ⟨files, rfl⟩
    · refine ⟨_, called, .inr ⟨_, rfl⟩, ?_⟩
      rintro _ ⟨⟩
      exact ⟨files, rfl⟩

/-- A world in which these replies come next. -/
def World.answering (w : World) (replies : List Reply) : World := { w with replies := replies }

/-- The disk that an operation has for the first tool it calls: what it leaves if that tool fails at once. -/
def Op.diskAtCall (op : Op α) (w : World) : Disk := (outcome op (w.answering [.fails ""])).2.disk

/-- Whatever the replies are, an operation comes to one call with the disk like this, and calls nothing
after it. -/
def Op.ComesTo (op : Op α) (w : World) (c : Call) (d : Disk) : Prop :=
  ∃ rest : Output → Op α, (∀ output, Op.Quiet (rest output)) ∧ ∀ replies,
    outcome op (w.answering replies) =
      outcome (Op.call c.program c.args c.stdin >>= rest) { w.answering replies with disk := d }

namespace Op.ComesTo

variable {op : Op α} {c : Call} {d : Disk}

theorem of_same {op' : Op α} (comes : ComesTo op w c d)
    (same : ∀ replies, outcome op' (w.answering replies) = outcome op (w.answering replies)) :
    ComesTo op' w c d := by
  obtain ⟨rest, quiet, called⟩ := comes
  exact ⟨rest, quiet, fun replies => (same replies).trans (called replies)⟩

theorem bind {f : α → Op β} (comes : ComesTo op w c d) (next : ∀ a, Quiet (f a)) :
    ComesTo (op >>= f) w c d := by
  obtain ⟨rest, quiet, called⟩ := comes
  refine ⟨fun output => rest output >>= f, fun output => (quiet output).bind next, fun replies => ?_⟩
  rw [← bind_assoc, outcome_bind, called, ← outcome_bind]

/-- The call is refused without being made, or is all that is asked. -/
theorem transcript (comes : ComesTo op w c d) :
    ∃ log, Transcript w log (outcome op w).2 ∧ (log = [] ∨ ∃ reply, log = [(c, reply)]) := by
  obtain ⟨rest, quiet, called⟩ := comes
  have run : outcome op w = outcome (Op.call c.program c.args c.stdin >>= rest) { w with disk := d } :=
    called w.replies
  have before : Silent w { w with disk := d } := .of_same rfl rfl rfl
  obtain ⟨log, said, only, _⟩ := Op.call_transcript c.program c.args c.stdin { w with disk := d }
  refine ⟨log, ?_, only⟩
  rw [run, outcome_bind]
  rcases made : outcome (Op.call c.program c.args c.stdin) { w with disk := d } with ⟨e | output, w'⟩
  · rw [made] at said
    exact before.append said
  · rw [made] at said
    have whole := (before.append said).append (quiet output w')
    rwa [List.append_nil] at whole

theorem diskAtCall (comes : ComesTo op w c d) : op.diskAtCall w = d := by
  obtain ⟨rest, _, called⟩ := comes
  have failed : ∃ e w', outcome (Op.call c.program c.args c.stdin) { w.answering [.fails ""] with disk := d } =
      (.error e, w') ∧ w'.disk = d := by
    rw [outcome_call]
    split
    · exact ⟨_, _, rfl, rfl⟩
    split
    · exact ⟨_, _, rfl, rfl⟩
    · exact ⟨_, _, rfl, rfl⟩
  obtain ⟨e, w', failed, left⟩ := failed
  rw [Op.diskAtCall, called, outcome_bind, failed]
  exact left

end Op.ComesTo

/-- Nothing but one tool was called. -/
def CallsOnly (program : String) (w w' : World) : Prop :=
  ∃ log, Transcript w log w' ∧ ∀ entry ∈ log, entry.1.program = program

variable {program : String}

theorem CallsOnly.trans (first : CallsOnly program w w') (second : CallsOnly program w' w'') :
    CallsOnly program w w'' := by
  obtain ⟨log, said, only⟩ := first
  obtain ⟨more, saidMore, onlyMore⟩ := second
  refine ⟨log ++ more, said.append saidMore, fun entry inside => ?_⟩
  rcases List.mem_append.mp inside with inside | inside
  · exact only entry inside
  · exact onlyMore entry inside

/-- An operation that calls one tool only, whatever its answer is. -/
def Op.Calls (program : String) (op : Op α) : Prop := Moves (CallsOnly program) op

theorem Op.Quiet.calls {op : Op α} (quiet : Op.Quiet op) : Op.Calls program op :=
  fun w => ⟨[], quiet w, nofun⟩

theorem Op.Calls.of_still {op : Op α} (still : Still op) : Op.Calls program op := (Op.Quiet.of_still still).calls

theorem Op.Calls.bind {x : Op α} {f : α → Op β} (first : Op.Calls program x)
    (next : ∀ a, Op.Calls program (f a)) : Op.Calls program (x >>= f) :=
  Moves.bind (fun ab bc => ab.trans bc) first next

theorem Op.calls_call (program : String) (args : List String) (stdin : Option String) :
    Op.Calls program (Op.call program args stdin) := by
  intro w
  obtain ⟨log, said, rfl | ⟨reply, rfl⟩, _⟩ := Op.call_transcript program args stdin w
  · exact ⟨[], said, nofun⟩
  · refine ⟨_, said, fun entry inside => ?_⟩
    rw [List.mem_singleton.mp inside]

namespace Lifecycle

open Time

/-- To make a key, nothing is called but the tool that makes keys. -/
theorem generate_calls (vault : Path) (req : NewKey) (now : Instant) :
    Op.Calls Call.keyMaker (generate vault req now) := by
  unfold generate
  refine (Op.Calls.of_still fun _ => rfl).bind fun w => ?_
  refine (Op.Calls.of_still (Op.still_ofExcept _)).bind fun bits => ?_
  refine (Op.Quiet.onDisk _).calls.bind fun _ => ?_
  refine (Op.calls_call _ _ _).bind fun output => ?_
  refine (Op.Calls.of_still (Op.still_ofExcept _)).bind fun _ => ?_
  refine (Op.Quiet.onDisk _).calls.bind fun _ => ?_
  refine (Op.Calls.of_still Op.still_disk).bind fun d => ?_
  refine (Op.Calls.of_still (Op.still_ofExcept _)).bind fun pub => ?_
  refine (Op.Calls.of_still (Op.still_ofExcept _)).bind fun expiresAt => ?_
  exact (Op.Quiet.edit _).calls.bind fun _ => (Op.Quiet.pure _).calls

theorem quiet_link (old new : String) : Op.Quiet (link old new) :=
  .bind (.edit _) fun _ => .bind (.edit _) fun _ => .bind (.of_still Op.still_inventory) fun _ =>
    .bind (.setInventory _) fun _ => .pure _

theorem rotate_calls (vault : Path) (req : Rotation) (now : Instant) :
    Op.Calls Call.keyMaker (rotate vault req now) := by
  unfold rotate
  refine (Op.Calls.of_still (Op.still_ask _)).bind fun old => ?_
  refine (Op.Calls.of_still Op.still_inventory).bind fun inv => ?_
  refine (Op.Calls.of_still Op.still_disk).bind fun d => ?_
  exact (generate_calls vault _ now).bind fun _ => (quiet_link _ _).calls

end Lifecycle

/-! ## Keys put on hosts and taken off -/

namespace Remote

open Time

/-- The call that puts a key on a host. -/
def installCall (k : Key) (h : Host) (auth : Option Key) : Call :=
  ⟨Call.keyInstaller, installArgs k h auth, none⟩

/-- The call that takes a key off a host. -/
def removalCall (inv : Inventory) (h : Host) (timeoutSecs : Nat) (k : Key) : Call :=
  ⟨Call.login, commandArgs inv h timeoutSecs (removalScript k.blob), none⟩

theorem of_deployed {inv : Inventory} {key label : String} {k : Key} {h : Host}
    (found : deployed inv key label = .ok (k, h)) : inv.key key = .ok k ∧ inv.host label = .ok h := by
  unfold deployed at found
  cases keyKnown : inv.key key with
  | error e => simp [keyKnown, bind, Except.bind] at found
  | ok k' =>
  cases hostKnown : inv.host label with
  | error e => simp [keyKnown, hostKnown, bind, Except.bind] at found
  | ok h' =>
  cases joined : inv.deployment key label with
  | error e => simp [keyKnown, hostKnown, joined, bind, Except.bind] at found
  | ok d =>
    simp only [keyKnown, hostKnown, joined, bind, Except.bind, pure, Except.pure, Except.ok.injEq,
      Prod.mk.injEq] at found
    obtain ⟨rfl, rfl⟩ := found
    exact ⟨rfl, rfl⟩

/-- A deployment calls nothing but the tool that puts keys on hosts, and succeeds only if that did. -/
theorem deploy_transcript (key label : String) (auth : Option String) (now : Instant) (w : World) :
    ∃ log, Transcript w log (outcome (deploy key label auth now) w).2 ∧
      (∀ entry ∈ log, entry.1.program = Call.keyInstaller) ∧
      ((outcome (deploy key label auth now) w).1 = .ok () → ∃ k h a output made,
        w.inventory.activeKey key = .ok k ∧ w.inventory.host label = .ok h ∧
          log = [(installCall k h a, .ran output made)] ∧ output.success = true) := by
  unfold deploy
  rw [outcome_bind, Op.outcome_inventory]
  dsimp only
  rw [outcome_bind, Op.outcome_ofExcept]
  cases active : w.inventory.activeKey key with
  | error e => exact ⟨[], .refl w, nofun, nofun⟩
  | ok k =>
  dsimp only
  rw [outcome_bind, Op.outcome_ofExcept]
  cases known : w.inventory.host label with
  | error e => exact ⟨[], .refl w, nofun, nofun⟩
  | ok h =>
  dsimp only
  rw [outcome_bind, Op.outcome_ofExcept]
  cases login : authKey w.inventory h auth with
  | error e => exact ⟨[], .refl w, nofun, nofun⟩
  | ok a =>
  dsimp only
  rw [outcome_bind]
  obtain ⟨log, said, only, answered⟩ := Op.call_transcript Call.keyInstaller (installArgs k h a) none w
  have programs : ∀ entry ∈ log, entry.1.program = Call.keyInstaller := by
    rcases only with rfl | ⟨reply, rfl⟩
    · exact nofun
    · intro entry inside
      rw [List.mem_singleton.mp inside]
  rcases called : outcome (Op.call Call.keyInstaller (installArgs k h a) none) w with ⟨e | output, w'⟩
  · rw [called] at said
    exact ⟨log, said, programs, nofun⟩
  · rw [called] at said answered
    obtain ⟨made, rfl⟩ := answered output rfl
    dsimp only
    by_cases good : output.success = true
    · simp only [good, Bool.not_true, Bool.false_eq_true, ↓reduceIte]
      refine ⟨_, said.append (Op.Quiet.edit _ w'), programs, fun _ => ?_⟩
      exact ⟨k, h, a, output, made, rfl, rfl, rfl, good⟩
    · simp only [good, Bool.not_false, ↓reduceIte]
      exact ⟨_, said, programs, nofun⟩

/-- To take a key off a host, one login is made at most, and that is with the script that removes it. -/
theorem revoke_transcript (key label : String) (timeoutSecs : Nat) (w : World) :
    ∃ log, Transcript w log (outcome (revoke key label timeoutSecs) w).2 ∧
      ∀ entry ∈ log, log = [entry] ∧ ∃ k h, w.inventory.key key = .ok k ∧ w.inventory.host label = .ok h ∧
        entry.1 = removalCall w.inventory h timeoutSecs k := by
  unfold revoke
  rw [outcome_bind, Op.outcome_inventory]
  dsimp only
  rw [outcome_bind, Op.outcome_ofExcept]
  cases found : deployed w.inventory key label with
  | error e => exact ⟨[], .refl w, nofun⟩
  | ok pair =>
  obtain ⟨k, h⟩ := pair
  dsimp only
  rw [outcome_bind]
  obtain ⟨keyKnown, hostKnown⟩ := of_deployed found
  obtain ⟨log, said, only, _⟩ := Op.call_transcript Call.login
    (commandArgs w.inventory h timeoutSecs (removalScript k.blob)) none w
  have removal : ∀ entry ∈ log, log = [entry] ∧ ∃ k h, w.inventory.key key = .ok k ∧
      w.inventory.host label = .ok h ∧ entry.1 = removalCall w.inventory h timeoutSecs k := by
    rcases only with rfl | ⟨reply, rfl⟩
    · exact nofun
    · intro entry inside
      rw [List.mem_singleton.mp inside]
      exact ⟨rfl, k, h, keyKnown, hostKnown, rfl⟩
  rcases called : outcome (Op.call Call.login
    (commandArgs w.inventory h timeoutSecs (removalScript k.blob)) none) w with ⟨e | output, w'⟩
  · rw [called] at said
    exact ⟨log, said, removal⟩
  · rw [called] at said
    refine ⟨log, ?_, removal⟩
    have rest : Op.Quiet (do
        if !output.success then throw (.revokeFailed s!"{key} ← {label}: {output.errorMessage}")
        let _ ← Op.edit (InventoryM.removeDeployment key label)) := by
      split
      · exact .throw _
      · exact .bind (.edit _) fun _ => .pure _
    have whole := said.append (rest w')
    rwa [List.append_nil] at whole

end Remote

end Keyring

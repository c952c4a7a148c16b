import Keyring.Main
import Keyring.Proofs.Operation.Outcome

/-!
# Scripts that answer calls

A call answered by a script ends as the script does, and the script leaves no files. The
replies to a whole run are found one after the other: what is asked next is known once
the replies to the calls before it are.
-/

namespace Keyring

variable {d : Disk} {tools : List Path} {values : List (String × String)}

theorem Tool.file_of_find? {program : String} {p : Path} (found : Tool.find? d tools program = some p) :
    ∃ at_ content mode time, d.find true p = .ok (at_, .file content mode time) ∧ mode &&& 0o111 ≠ 0 := by
  have executable : Tool.isExecutable d p = true := List.find?_some found
  unfold Tool.isExecutable at executable
  split at executable
  · exact ⟨_, _, _, _, ‹_›, of_decide_eq_true executable⟩
  · cases executable

theorem Tool.reply_of_find? {c : Call} {p : Path} {at_ : Place} {content : Content} {mode : Nat}
    {time : Time.Instant} (found : Tool.find? d tools c.program = some p)
    (file : d.find true p = .ok (at_, .file content mode time)) :
    Tool.reply d tools values c =
      match Tool.start p content (Tool.ownValues d tools ++ values) c.args (c.stdin.getD "") with
      | .ok output => .ran output ⟨none, none⟩
      | .error refusal => .fails refusal.message := by
  rcases started : Tool.start p content (Tool.ownValues d tools ++ values) c.args (c.stdin.getD "")
    with refusal | output
  · simp only [Tool.reply, found, file, started]
  · simp only [Tool.reply, found, file, started]

/-- A call that is made ends as its reply says, and leaves the disk as it is if the reply leaves no files. -/
theorem Op.outcome_call_of_noFiles {program : String} {args : List String} {stdin : Option String} {w : World}
    (installed : program ∈ w.installed) (passes : (Call.mk program args stdin).hasNul = false)
    (noFiles : ∀ output made, w.reply = .ran output made → made = ⟨none, none⟩) :
    outcome (Op.call program args stdin) w =
      (match w.reply with
        | .absent => .error (.toolNotInstalled program)
        | .fails reason => .error (.toolFailed program reason)
        | .ran output _ => .ok output,
      w.called ⟨program, args, stdin⟩) := by
  rw [Op.outcome_call]
  simp only [List.contains_iff_mem.mpr installed, passes, Bool.not_true, Bool.false_and, Bool.false_eq_true,
    ↓reduceIte]
  cases replied : w.reply with
  | absent => rfl
  | fails reason => rfl
  | ran output made =>
    obtain rfl := noFiles output made replied
    cases (Call.mk program args stdin).madeKey? <;> rfl

/-- A call that the tool found answers ends as its script does, or is refused for what keeps it from being
started. -/
theorem Op.outcome_call_of_script {program : String} {args : List String} {stdin : Option String} {w : World}
    {p : Path} (installed : program ∈ w.installed) (passes : (Call.mk program args stdin).hasNul = false)
    (found : Tool.find? d tools program = some p)
    (replied : w.reply = Tool.reply d tools values ⟨program, args, stdin⟩) :
    ∃ at_ content mode time, d.find true p = .ok (at_, .file content mode time) ∧
      outcome (Op.call program args stdin) w =
        (match Tool.start p content (Tool.ownValues d tools ++ values) args (stdin.getD "") with
          | .ok output => .ok output
          | .error refusal => .error (.toolFailed program refusal.message),
        w.called ⟨program, args, stdin⟩) := by
  obtain ⟨at_, content, mode, time, file, -⟩ := Tool.file_of_find? found
  refine ⟨at_, content, mode, time, file, ?_⟩
  rw [Tool.reply_of_find? (c := ⟨program, args, stdin⟩) found file] at replied
  rcases started : Tool.start p content (Tool.ownValues d tools ++ values) args (stdin.getD "")
    with refusal | output
  · rw [started] at replied
    rw [Op.outcome_call_of_noFiles installed passes (by rw [replied]; exact nofun), replied]
  · rw [started] at replied
    have noFiles : ∀ output made, w.reply = .ran output made → made = ⟨none, none⟩ := by
      intro _ _ ran
      rw [replied] at ran
      exact (Reply.ran.inj ran).2.symm
    rw [Op.outcome_call_of_noFiles installed passes noFiles, replied]

/-- Replies given one after the other, each to the call that the run makes once it has those before. -/
inductive Tool.Answered (answer : Call → Reply) (callsFor : List Reply → List Call) : List Reply → Prop
  | start : Answered answer callsFor []
  | next {replies : List Reply} {c : Call} : Answered answer callsFor replies →
      (callsFor replies)[replies.length]? = some c → Answered answer callsFor (replies ++ [answer c])

theorem Tool.Answered.settle {answer : Call → Reply} {callsFor : List Reply → List Call} {replies : List Reply}
    (answered : Tool.Answered answer callsFor replies) (fuel : Nat) :
    Tool.Answered answer callsFor (Tool.settle answer callsFor fuel replies) := by
  induction fuel generalizing replies with
  | zero => exact answered
  | succ fuel ih =>
    rw [Tool.settle]
    split
    · exact answered
    · exact ih (answered.next ‹_›)

/-- Nothing more is asked in the end, if there is room for one more reply. -/
theorem Tool.asked_of_settle {answer : Call → Reply} {callsFor : List Reply → List Call} (fuel : Nat)
    (replies : List Reply)
    (room : (Tool.settle answer callsFor fuel replies).length < replies.length + fuel) :
    (callsFor (Tool.settle answer callsFor fuel replies)).length ≤
      (Tool.settle answer callsFor fuel replies).length := by
  induction fuel generalizing replies with
  | zero => exact absurd room (Nat.lt_irrefl _)
  | succ fuel ih =>
    rw [Tool.settle] at room ⊢
    cases asked : (callsFor replies)[replies.length]? with
    | none => exact List.getElem?_eq_none_iff.mp asked
    | some c =>
      simp only [asked] at room
      refine ih _ ?_
      rw [List.length_append, List.length_singleton]
      omega

/-- The program runs a command with replies that are found one after the other, and with all that the command
asks for where these are fewer than the program looks for. -/
theorem Program.runIn_answered (env : CommandLine.Environment) (clock : Time.Clock) (answer : Call → Reply)
    (tokens : List String) (world : World) :
    ∃ replies, Program.runIn env clock answer tokens world =
        CommandLine.run env clock tokens { world with replies } ∧
      Tool.Answered answer (fun replies =>
        (CommandLine.run env clock tokens { world with replies }).2.calls.reverse) replies ∧
      (replies.length < Program.mostCalls →
        (CommandLine.run env clock tokens { world with replies }).2.calls.length ≤ replies.length) := by
  refine ⟨_, rfl, Tool.Answered.settle .start _, fun room => ?_⟩
  have asked := Tool.asked_of_settle Program.mostCalls [] (by rwa [List.length_nil, Nat.zero_add])
  rwa [List.length_reverse] at asked

end Keyring

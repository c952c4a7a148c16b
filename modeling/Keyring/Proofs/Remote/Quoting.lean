import Keyring.Proofs.Remote.Answers
import Keyring.Proofs.Remote.QuotedField
import Keyring.Proofs.Remote.ShellReader

/-!
# Commands for hosts

The two commands that carry a key to a host, one to look for it there and one to take it off,
are read alike whatever the key: the same words and operators before it, it as one word that
stands for itself, and the same after it (`tokens?_searchScript`, `tokens?_removalScript`). No
other command is sent while a key is looked for or taken off (`quoting_is_safe`).
-/

namespace Keyring.Remote

/-- Characters of a word as they stand outside of quotes. -/
def bare (s : String) : List Letter := s.toList.map (⟨·, .bare⟩)

/-- Characters of a word as they stand within double quotes. -/
def inDouble (s : String) : List Letter := s.toList.map (⟨·, .double⟩)

/-- What a shell reads where a key is looked for: no line is printed, and the key is no pattern. -/
def searchTokens (blob : String) : List Token :=
  [.word (bare "grep"), .word (bare "-qF"), .word (literal blob), .word (bare "~/.ssh/authorized_keys")]

/-- What is read before the key where it is to be taken off. -/
def tokensBefore : List Token :=
  [.word (bare "f=~/.ssh/authorized_keys"), .sign ';',
    .word (bare "["), .word (bare "-f"), .word (inDouble "$f"), .word (bare "]"), .sign '|', .sign '|',
    .word (bare "exit"), .word (bare "0"), .sign ';',
    .word (bare "t=$(mktemp " ++ inDouble "$f.XXXXXX" ++ bare ")"), .sign '|', .sign '|',
    .word (bare "exit"), .word (bare "1"), .sign ';',
    .word (bare "grep"), .word (bare "-vF")]

def tokensAfter : List Token :=
  [.word (inDouble "$f"), .sign '>', .word (inDouble "$t"), .sign ';', .word (bare "rc=$?"), .sign ';',
    .word (bare "["), .word (bare "$rc"), .word (bare "-le"), .word (bare "1"), .word (bare "]"),
    .sign '|', .sign '|', .word (bare "\x7b"), .word (bare "rm"), .word (bare "-f"), .word (inDouble "$t"), .sign ';',
    .word (bare "exit"), .word (bare "$rc"), .sign ';', .word (bare "\x7d"), .sign ';',
    .word (bare "chmod"), .word (bare "600"), .word (inDouble "$t"), .sign '&', .sign '&',
    .word (bare "mv"), .word (inDouble "$t"), .word (inDouble "$f")]

variable {s : String}

theorem tokens?_searchScript (noNul : '\x00' ∉ s.toList) : tokens? (searchScript s) = some (searchTokens s) := by
  have front : Reader.start.read "grep -qF ".toList =
      some (Reader.start.after [.word (bare "grep"), .word (bare "-qF")]) := by decide +kernel
  have back : tokens? "~/.ssh/authorized_keys" = some [.word (bare "~/.ssh/authorized_keys")] := by decide +kernel
  have blank : " ~/.ssh/authorized_keys" = " " ++ "~/.ssh/authorized_keys" := rfl
  rw [searchScript, blank, tokens?_around front noNul, back, Option.map_some]
  rfl

theorem tokens?_removalScript (noNul : '\x00' ∉ s.toList) :
    tokens? (removalScript s) = some (tokensBefore ++ .word (literal s) :: tokensAfter) := by
  have before : Reader.start.read ("f=~/.ssh/authorized_keys; [ -f \"$f\" ] || exit 0; "
      ++ "t=$(mktemp \"$f.XXXXXX\") || exit 1; " ++ "grep -vF ").toList =
        some (Reader.start.after tokensBefore) := by decide +kernel
  have after : tokens? ("\"$f\" > \"$t\"; rc=$?; " ++ "[ $rc -le 1 ] || \x7b rm -f \"$t\"; exit $rc; \x7d; "
      ++ "chmod 600 \"$t\" && mv \"$t\" \"$f\"") = some tokensAfter := by decide +kernel
  have blank : " \"$f\" > \"$t\"; rc=$?; " = " " ++ "\"$f\" > \"$t\"; rc=$?; " := by decide +kernel
  have regroup (front quoted first second third : String) :
      front ++ quoted ++ (" " ++ first) ++ second ++ third = front ++ quoted ++ (" " ++ (first ++ second ++ third)) := by
    simp only [String.append_assoc]
  unfold removalScript
  rw [blank, regroup, tokens?_around before noNul, after, Option.map_some]

/-- At most one command is sent to a host on the way from one world to another, and a shell reads it
as these tokens. -/
inductive Sends (tokens : List Token) (w : World) : World → Prop where
  | nothing {w' : World} (same : w'.calls = w.calls) : Sends tokens w w'
  | command {w' : World} {args : List String} {text : String}
      (sent : w'.calls = ⟨Call.login, args ++ [text], none⟩ :: w.calls) (read : tokens? text = some tokens) :
      Sends tokens w w'

/-- The call that sends a command made from a key to a host that the key is deployed on. -/
def commandCall (inv : Inventory) (key label : String) (timeoutSecs : Nat) (script : String → String) :
    Except Error Call := do
  let (k, h) ← deployed inv key label
  return ⟨Call.login, commandArgs inv h timeoutSecs (script k.blob), none⟩

variable {w : World} {key label : String} {timeoutSecs : Nat} {k : Key} {script : String → String}

theorem args_of_commandCall {c : Call} (called : commandCall w.inventory key label timeoutSecs script = .ok c)
    (known : w.inventory.key key = .ok k) : ∃ args, c = ⟨Call.login, args ++ [script k.blob], none⟩ := by
  cases found : deployed w.inventory key label with
  | error e => simp [commandCall, found, bind, Except.bind] at called
  | ok pair =>
    obtain ⟨other, h⟩ := pair
    obtain rfl : other = k := Except.ok.inj ((of_deployed found).1.symm.trans known)
    simp only [commandCall, found, bind, Except.bind, pure, Except.pure, Except.ok.injEq] at called
    refine ⟨loginArgs w.inventory h timeoutSecs ++ [h.target], ?_⟩
    rw [← called, commandArgs, List.append_assoc]
    rfl

theorem sends_of_asked {α : Type} {Settles : Output → Except Error α → Inventory → Prop} {tokens : List Token}
    {end_ : Except Error α × World}
    (asked : Asked (commandCall w.inventory key label timeoutSecs script) Settles w end_)
    (known : w.inventory.key key = .ok k) (read : tokens? (script k.blob) = some tokens) : Sends tokens w end_.2 := by
  cases asked with
  | refused => exact .nothing rfl
  | barred => exact .nothing rfl
  | failed called =>
    obtain ⟨args, rfl⟩ := args_of_commandCall called known
    exact .command rfl read
  | answered called =>
    obtain ⟨args, rfl⟩ := args_of_commandCall called known
    exact .command rfl read

theorem sends_of_verify (known : w.inventory.key key = .ok k) (noNul : '\x00' ∉ k.blob.toList) (now : Time.Instant) :
    Sends (searchTokens k.blob) w (outcome (verify key label timeoutSecs now) w).2 :=
  sends_of_asked (asked_verify now key label timeoutSecs w) known (tokens?_searchScript noNul)

theorem sends_of_revoke (known : w.inventory.key key = .ok k) (noNul : '\x00' ∉ k.blob.toList) :
    Sends (tokensBefore ++ .word (literal k.blob) :: tokensAfter) w (outcome (revoke key label timeoutSecs) w).2 :=
  sends_of_asked (asked_revoke key label timeoutSecs w) known (tokens?_removalScript noNul)

/-- A quoted text without a NUL is read to its end as one word, which is the text, each character for
itself, be it read alone, after a word that has begun, or by a script. So no text of a key ends the word
it is in: to look for a key and to take it off send the same tokens but for that one word. -/
theorem quoting_is_safe (s : String) (noNul : '\x00' ∉ s.toList) :
    tokens? (shellQuote s) = some [.word (literal s)] ∧
    (∀ r : Reader, r.mode = .bare → r.expands = false →
      r.read (shellQuote s).toList = some { r with word := some (r.word.getD [] ++ literal s) }) ∧
    (∃ w, Script.tokensOf (Script.bytesOfText (shellQuote s)) = some [(.word w, 1)] ∧
      ∀ sh : Script.Shell, sh.fieldsOf? w = some [Script.bytesOfText s]) ∧
    ∀ (w : World) (key label : String) (timeoutSecs : Nat) (now : Time.Instant) (k : Key),
      w.inventory.key key = .ok k → k.blob = s →
        Sends (searchTokens s) w (outcome (verify key label timeoutSecs now) w).2 ∧
        Sends (tokensBefore ++ .word (literal s) :: tokensAfter) w (outcome (revoke key label timeoutSecs) w).2 := by
  refine ⟨tokens?_shellQuote noNul, ?_, Script.tokensOf_shellQuote s, ?_⟩
  · intro r bare apart
    exact Reader.read_shellQuote bare apart noNul
  · rintro w key label timeoutSecs now k known rfl
    exact ⟨sends_of_verify known noNul now, sends_of_revoke known noNul⟩

/-- A world with a key on a host, where the public half on record has a quote and a backslash. -/
def quotedWorld : World :=
  let k : Key := ⟨"work", .ed25519, none, "", "", "work", "work.pub", "ssh-ed25519 it's\\ me", ⟨0, 0⟩, none,
    .active, none, none, true, []⟩
  let h : Host := ⟨"web", "example.org", "root", 22, none, [], ⟨0, 0⟩, none, none, none⟩
  ⟨⟨1, [k], [h], [⟨"work", "web", ⟨0, 0⟩, .copied, none⟩]⟩, ⟨[], [], ⟨0, 0⟩⟩, [Call.login], false, [],
    .ran ⟨some 0, "", ""⟩ ⟨none, none⟩, []⟩

/-- The command to look for it is sent, with all of that in one word. -/
theorem quoting_is_safe_of_quotedWorld :
    '\x00' ∉ "it's\\".toList ∧ tokens? "'it'\\''s\\'" = some [.word (literal "it's\\")] ∧ ∃ args text,
      (outcome (verify "work" "web" 10 ⟨0, 0⟩) quotedWorld).2.calls = [⟨Call.login, args ++ [text], none⟩] ∧
        tokens? text = some (searchTokens "it's\\") := by
  have noNul : '\x00' ∉ "it's\\".toList := by decide
  have quoted : shellQuote "it's\\" = "'it'\\''s\\'" := by decide +kernel
  obtain ⟨k, known, blob⟩ : ∃ k, quotedWorld.inventory.key "work" = .ok k ∧ k.blob = "it's\\" :=
    ⟨_, rfl, by decide +kernel⟩
  have called : (outcome (verify "work" "web" 10 ⟨0, 0⟩) quotedWorld).2.calls.length = 1 := by decide +kernel
  obtain ⟨alone, -, -, sends⟩ := quoting_is_safe "it's\\" noNul
  rw [quoted] at alone
  refine ⟨noNul, alone, ?_⟩
  cases (sends quotedWorld "work" "web" 10 ⟨0, 0⟩ k known blob).1 with
  | nothing same =>
    rw [same] at called
    cases called
  | command sent read => exact ⟨_, _, sent, read⟩

end Keyring.Remote

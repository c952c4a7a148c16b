import Keyring.Script.Word

/-!
# Commands of a script

What a script asks for.
-/

namespace Keyring.Script

/-- What a script writes its results to, and its complaints. -/
inductive Channel where
  | output
  | complaints
deriving DecidableEq, Repr

def Channel.ofNumber? : Nat → Option Channel
  | 1 => some .output
  | 2 => some .complaints
  | _ => none

inductive Redirection where
  /-- What goes to the channel goes to where another one leads. -/
  | follow (channel other : Channel)
  /-- What goes to the channel is thrown away. -/
  | discard (channel : Channel)
  /-- There is nothing to read. -/
  | readNothing
deriving DecidableEq, Repr

inductive Command where
  | nothing
  /-- Assignments, and a program or builtin with its arguments. -/
  | simple (line : Nat) (assigned : List (Bytes × Word)) (words : List Word)
  | redirected (command : Command) (by_ : Redirection)
  | next (first second : Command)
  /-- The second only after success of the first. -/
  | both (first second : Command)
  /-- The second only after failure of the first. -/
  | either (first second : Command)
  | negated (command : Command)
  /-- Repeated as long as the test succeeds, or with `untilSuccess` as long as it fails. -/
  | loop (untilSuccess : Bool) (test body : Command)
  | branch (test yes no : Command)
  /-- Once for each of some words, or for each argument of the script. -/
  | each (line : Nat) (name : Bytes) (items : Option (List Word)) (body : Command)
  /-- The first where the text of a word has one of some patterns, else the second. -/
  | matching (line : Nat) (subject : Word) (patterns : List Word) (yes no : Command)
  /-- With variables of its own. -/
  | enclosed (command : Command)
deriving Repr

end Keyring.Script

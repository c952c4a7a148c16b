import Keyring.Error
import Keyring.Text.Blank

/-!
# Tools

The programs that make keys and talk to hosts, what is asked of them and what
they answer.
-/

namespace Keyring

/-- What a program leaves behind. Killed by a signal it has no status. -/
structure Output where
  status : Option Int
  stdout : String
  stderr : String
deriving DecidableEq, Repr

namespace Output

def success (o : Output) : Bool := o.status = some 0

/-- What a program said went wrong, or else how it ended. -/
def errorMessage (o : Output) : String :=
  let said := Text.trimmed o.stderr
  if !said.isEmpty then said
  else match o.status with
    | some code => s!"exited with status {code}"
    | none => "terminated by signal"

end Output

structure Call where
  program : String
  args : List String
  stdin : Option String
deriving DecidableEq, Repr

/-- The texts of the two files of a key pair; either may be left out. -/
structure KeyFiles where
  privateText : Option String
  publicText : Option String
deriving DecidableEq, Repr

/-- How a call ends. -/
inductive Reply where
  | absent
  | fails (reason : String)
  /-- It runs; a call that is to make a key leaves these files, however it ends. -/
  | ran (output : Output) (made : KeyFiles)
deriving DecidableEq, Repr

namespace Call

def keyMaker : String := "ssh-keygen"
def login : String := "ssh"
def keyInstaller : String := "ssh-copy-id"

/-- An argument holds a character that the system passes to no program. -/
def hasNul (c : Call) : Bool := c.args.any (·.toList.contains '\x00')

/-- What the system says of such a call. -/
def nulMessage : String := "nul byte found in provided data"

/-- The options of `ssh-keygen` that take the argument after them, of those that it is called with. -/
def valuedOptions : List String := ["-t", "-b", "-N", "-C", "-f"]

/-- The options with their values, in order. An argument that is taken by the option before it, `taker`, is
no option itself. -/
def optionsAfter (taker : Option String) : List String → List (String × String)
  | [] => []
  | arg :: rest => match taker with
    | some name => (name, arg) :: optionsAfter none rest
    | none => optionsAfter (if arg ∈ valuedOptions then some arg else none) rest

def options (c : Call) : List (String × String) := optionsAfter none c.args

/-- The file of the key that a call makes: the value of `-f`, where `-t` asks for a new key. -/
def madeKey? (c : Call) : Option String :=
  if c.program = keyMaker && (c.options.lookup "-t").isSome then c.options.lookup "-f" else none

end Call

end Keyring

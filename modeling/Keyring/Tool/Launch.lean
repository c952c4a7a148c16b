import Keyring.Script.Run
import Keyring.World

/-!
# Tools found and started

A tool without a slash in its path is looked for in the directories of tools. What
can be started is a file that names a shell in its first line.
-/

namespace Keyring.Tool

/-- The programs that run scripts. -/
def shells : List String := ["/bin/sh", "/bin/dash", "/usr/bin/sh", "/usr/bin/dash"]

def isExecutable (d : Disk) (p : Path) : Bool :=
  match d.find true p with
  | .ok (_, .file _ mode _) => mode &&& 0o111 ≠ 0
  | _ => false

/-- Where a tool is; those that are called by name are in one of the directories `tools`. -/
def find? (d : Disk) (tools : List Path) (program : String) : Option Path :=
  let paths := if program.toList.contains '/' && (Path.components program).length > 1
    then [Path.join (Disk.pathOf d.workingPlace) program]
    else tools.map fun directory => Path.join directory program
  paths.find? (isExecutable d)

def contentBytes : Content → Script.Bytes
  | .text s => Script.bytesOfText s
  | .bytes b => b.map fun c => Char.ofNat c.toNat

/-- The program that the first line of a file names, which is to run it. -/
def interpreter? : Script.Bytes → Option Script.Bytes
  | '#' :: '!' :: rest =>
    let name := ((rest.takeWhile (· ≠ '\n')).dropWhile Script.isBlank).takeWhile (!Script.isBlank ·)
    if name = [] then none else some name
  | _ => none

/-- Why a file cannot be started. -/
inductive Refusal where
  | nulInArgument
  | notProgram
  | noInterpreter
  | endless
deriving DecidableEq, Repr

def Refusal.message : Refusal → String
  | .nulInArgument => Call.nulMessage
  | .notProgram => "Exec format error (os error 8)"
  | .noInterpreter => FileError.notFound.message
  | .endless => "no end in sight"

/-- What a file of a script leaves behind, with values for some variables. -/
def start (file : Path) (content : Content) (values : List (String × String)) (args : List String)
    (stdin : String) : Except Refusal Output :=
  let source := contentBytes content
  if (Call.mk file args stdin).hasNul then .error .nulInArgument
  else match interpreter? source with
    | none => .error .notProgram
    | some name =>
      if !shells.any (·.toList = name) then .error .noInterpreter
      else match Script.outputOf? file args values stdin source with
        | some output => .ok output
        | none => .error .endless

/-- What every script knows: where tools are and where it works. -/
def ownValues (d : Disk) (tools : List Path) : List (String × String) :=
  [("PATH", ":".intercalate tools), ("PWD", Disk.pathOf d.workingPlace)]

/-- How a call of a tool ends that is a script, with values for some variables. No script makes a key. -/
def reply (d : Disk) (tools : List Path) (values : List (String × String)) (c : Call) : Reply :=
  match find? d tools c.program with
  | none => .absent
  | some p =>
    match d.find true p with
    | .ok (_, .file content ..) =>
      match start p content (ownValues d tools ++ values) c.args (c.stdin.getD "") with
      | .ok output => .ran output ⟨none, none⟩
      | .error refusal => .fails refusal.message
    | _ => .absent

/-- The replies to the calls of a run, where `callsFor` are those that it makes when it is given some replies:
what it asks once those before are given is answered, as long as it asks and at most so many times. -/
def settle (answer : Call → Reply) (callsFor : List Reply → List Call) : Nat → List Reply → List Reply
  | 0, replies => replies
  | fuel + 1, replies => match (callsFor replies)[replies.length]? with
    | none => replies
    | some c => settle answer callsFor fuel (replies ++ [answer c])

end Keyring.Tool

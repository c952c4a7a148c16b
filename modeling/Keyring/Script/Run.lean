import Keyring.Script.Builtin
import Keyring.Script.Grammar
import Keyring.Tool

/-!
# Scripts run

What the commands of a script do, and what a script leaves behind.
-/

namespace Keyring.Script

open Shell

/-- How many turns a loop may take. -/
def mostTurns : Nat := 1000000

def setStatus (n : Nat) : ShellM Unit := modify fun sh => { sh with status := n }

def succeeded : ShellM Bool := return (← get).status = 0

/-- One turn of a loop; whether there may be another. -/
def turn (work : ShellM Bool) : ShellM Bool :=
  tryCatch work fun
    | .leave n => if n ≤ 1 then do setStatus 0; return false else throw (.leave (n - 1))
    | .again n => if n ≤ 1 then do setStatus 0; return true else throw (.again (n - 1))
    | stop => throw stop

/-- A test and a body in turns, after a turn that ended with the status `last`. -/
def repeated (untilSuccess : Bool) (test body : ShellM Unit) : Nat → Nat → ShellM Unit
  | 0, _ => throw .endless
  | turns + 1, last => do
    let goesOn ← turn do
      test
      if (← succeeded) = untilSuccess then
        setStatus last
        return false
      body
      return true
    if goesOn then repeated untilSuccess test body turns (← get).status

/-- Work done once for each value of a variable. -/
def forEach (name : Bytes) (work : ShellM Unit) : List Bytes → ShellM Unit
  | [] => pure ()
  | value :: rest => do
    modify (·.assigned name value)
    if ← turn (do work; return true) then forEach name work rest

/-- Work after which a part of the state is as it was before, also where the work stops short. -/
def restoring (restore : Shell → Shell → Shell) (work : ShellM Unit) : ShellM Unit := do
  let before ← get
  tryCatch work fun stop => do
    modify (restore before)
    throw stop
  modify (restore before)

def redirect (sh : Shell) : Redirection → Shell
  | .follow .output other => { sh with output := sh.leadsTo other }
  | .follow .complaints other => { sh with complaints := sh.leadsTo other }
  | .discard .output => { sh with output := none }
  | .discard .complaints => { sh with complaints := none }
  | .readNothing => { sh with input := [] }

/-- The channels as they were; and the input, where it was put aside. -/
def restoreChannels (r : Redirection) (before after : Shell) : Shell :=
  { after with
    output := before.output
    complaints := before.complaints
    input := if r = .readNothing then before.input else after.input }

/-- The fields of words; a sum without a value ends the script. -/
def fieldsOf (line : Nat) (ws : List Word) : ShellM (List Bytes) := do
  match ws.mapM (← get).fieldsOf? with
  | some fields => return fields.flatten
  | none => Builtin.giveUp line "arithmetic expression: no value".toList

def assign (line : Nat) (pair : Bytes × Word) : ShellM Unit := do
  match (← get).textOf? pair.2 with
  | some value => modify (·.assigned pair.1 value)
  | none => Builtin.giveUp line "arithmetic expression: no value".toList

/-- Whether the text of a word has one of some patterns. -/
def hasPattern (line : Nat) (subject : Word) (patterns : List Word) : ShellM Bool := do
  let sh ← get
  match sh.textOf? subject, patterns.mapM sh.patternOf? with
  | some s, some ps => return ps.any (·.fits s)
  | _, _ => Builtin.giveUp line "arithmetic expression: no value".toList

def notFound : Nat := 127

/-- A builtin called by its name; there are no programs to call. -/
def callBuiltin (line : Nat) (name : Bytes) (args : List Bytes) : ShellM Unit := do
  match Builtin.named? line name with
  | some work => setStatus (← work args)
  | none =>
    complain line (name ++ ": not found".toList)
    setStatus notFound

/-- Assignments before a command hold for that command alone. -/
def runSimple (line : Nat) (assigned : List (Bytes × Word)) (ws : List Word) : ShellM Unit := do
  let before ← get
  match ← fieldsOf line ws with
  | [] =>
    assigned.forM (assign line)
    setStatus 0
  | name :: args =>
    assigned.forM (assign line)
    callBuiltin line name args
    modify fun sh => assigned.foldl (fun sh (name, _) =>
      match before.values.lookup name with
      | some value => sh.assigned name value
      | none => sh.unassigned name) sh

/-- A command done; its status is that of the last one in it. -/
def run : Command → ShellM Unit
  | .nothing => setStatus 0
  | .simple line assigned ws => runSimple line assigned ws
  | .redirected c r =>
    restoring (restoreChannels r) do
      modify (redirect · r)
      run c
  | .next a b => do
    run a
    run b
  | .both a b => do
    run a
    if ← succeeded then run b
  | .either a b => do
    run a
    if !(← succeeded) then run b
  | .negated c => do
    run c
    setStatus (if ← succeeded then 1 else 0)
  | .loop untilSuccess test body => repeated untilSuccess (run test) (run body) mostTurns 0
  | .branch test yes no => do
    run test
    if ← succeeded then run yes else run no
  | .each line name items body => do
    let values ← match items with
      | some ws => fieldsOf line ws
      | none => do pure (← get).args
    setStatus 0
    forEach name (run body) values
  | .matching line subject patterns yes no => do
    if ← hasPattern line subject patterns then run yes else run no
  | .enclosed c =>
    restoring (fun before after => { after with args := before.args, values := before.values }) do
      tryCatch (run c) fun
        | .exited n => setStatus n
        | .killed => throw .killed
        | .endless => throw .endless
        | .leave _ | .again _ => pure ()

/-- What a script leaves behind that was called by a name, with values for some variables; `none`
if it never ends. -/
def outputOf? (name : String) (args : List String) (values : List (String × String))
    (input : String) (source : Bytes) : Option Output :=
  let start := Shell.start (bytesOfText name) (args.map bytesOfText)
    (values.map fun (name, value) => (bytesOfText name, bytesOfText value)) (bytesOfText input)
  let work : ShellM Unit := match Command.ofBytes? source with
    | some c => run c
    | none => Builtin.giveUp 1 "Syntax error".toList
  let (result, after) := work.run.run start
  let written := fun c => Text.textOfUtf8Lossy (byteValues (after.writtenTo c))
  let output := fun (status : Option Int) => some ⟨status, written .output, written .complaints⟩
  match result with
  | .ok () | .error (.leave _) | .error (.again _) => output (some after.status)
  | .error (.exited n) => output (some n)
  | .error .killed => output none
  | .error .endless => none

end Keyring.Script

import Keyring.Script.Shell

/-!
# Builtins

The commands that a script can use without any program. Each one gives a status.
-/

namespace Keyring.Script.Builtin

open Shell

def isOctal (c : Char) : Bool := '0' ≤ c && c ≤ '7'

/-- What a backslash stands for, by what follows it. -/
def afterBackslash : Bytes → Bytes × Bytes
  | [] => (['\\'], [])
  | c :: rest =>
    if isOctal c then
      let digits := ((c :: rest).take 3).takeWhile isOctal
      ([Char.ofNat ((Text.natOfDigits? 8 digits).getD 0 % 256)], (c :: rest).drop digits.length)
    else match [('\\', '\\'), ('a', '\x07'), ('b', '\x08'), ('f', '\x0c'), ('n', '\n'), ('r', '\r'),
        ('t', '\t'), ('v', '\x0b')].lookup c with
      | some d => ([d], rest)
      | none => (['\\'], c :: rest)

/-- A text with its backslashes replaced, up to one that ends all writing, and whether one does. -/
def unescaped : Nat → Bytes → Bytes × Bool
  | _, [] => ([], false)
  | 0, s => (s, false)
  | fuel + 1, '\\' :: rest =>
    if rest.head? = some 'c' then ([], true)
    else
      let octal := rest.head? = some '0' && (rest.drop 1).head?.any isOctal
      let (s, after) := afterBackslash (if octal then rest.drop 1 else rest)
      let (more, ended) := unescaped fuel after
      (s ++ more, ended)
  | fuel + 1, c :: rest =>
    let (more, ended) := unescaped fuel rest
    (c :: more, ended)

def echo (args : List Bytes) : ShellM Nat := do
  let bare := args.head? = some "-n".toList
  let s := [' '].intercalate (if bare then args.drop 1 else args)
  let (s, ended) := unescaped s.length s
  write .output (if bare || ended then s else s ++ ['\n'])
  return 0

/-! ## Formats -/

/-- How a value is laid out: flags, the least width and the most characters. -/
structure Slot where
  left : Bool
  zeros : Bool
  width : Nat
  most : Option Nat
  kind : Char

def Slot.read? (s : Bytes) : Option (Slot × Bytes) :=
  let flags := s.takeWhile ['#', '-', '+', ' ', '0'].contains
  let rest := s.drop flags.length
  let width := rest.takeWhile Text.isDigit
  let rest := rest.drop width.length
  let (most, rest) := match rest with
    | '.' :: rest =>
      let digits := rest.takeWhile Text.isDigit
      (some ((Text.natOfDigits? 10 digits).getD 0), rest.drop digits.length)
    | _ => (none, rest)
  match rest with
  | kind :: rest => some (⟨flags.contains '-', flags.contains '0',
      (Text.natOfDigits? 10 width).getD 0, most, kind⟩, rest)
  | [] => none

def Slot.pad (slot : Slot) (s : Bytes) : Bytes :=
  let gap := List.replicate (slot.width - s.length) ' '
  if slot.left then s ++ gap else gap ++ s

/-- A number, with zeros in front if the slot asks for them. -/
def Slot.padNumber (slot : Slot) (negative : Bool) (digits : Bytes) : Bytes :=
  let sign := if negative then ['-'] else []
  let least := match slot.most with
    | some n => n
    | none => if slot.zeros && !slot.left then slot.width - sign.length else 0
  slot.pad (sign ++ Text.zeroPadded least digits)

/-- A value in its slot, and whether writing ends with it; `none` where the slot has no such kind or
the value is no number. -/
def Slot.fill (slot : Slot) (arg : Bytes) : Option (Bytes × Bool) :=
  let cut := fun s : Bytes => match slot.most with
    | some n => s.take n
    | none => s
  match slot.kind with
  | 's' => some (slot.pad (cut arg), false)
  | 'b' =>
    let (s, ended) := unescaped arg.length arg
    some (slot.pad (cut s), ended)
  | 'c' => some (slot.pad (if arg = [] then ['\x00'] else arg.take 1), false)
  | 'd' | 'i' | 'u' => (intOf? arg).map fun n => (slot.padNumber (n < 0) (Text.decimal n.natAbs), false)
  | 'o' => (intOf? arg).map fun n => (slot.padNumber false (Text.octal n.toNat), false)
  | 'x' => (intOf? arg).map fun n => (slot.padNumber false (Text.hexPadded 1 n.toNat), false)
  | 'X' => (intOf? arg).map fun n =>
    (slot.padNumber false ((Text.hexPadded 1 n.toNat).map Char.toUpper), false)
  | _ => none

/-- How a format went: what it wrote, the arguments it left, whether writing has ended, and what was
wrong. -/
structure Formatted where
  text : Bytes
  left : List Bytes
  ended : Bool
  fault : Option Bytes

def Formatted.after (s : Bytes) (f : Formatted) : Formatted := { f with text := s ++ f.text }

def formatOnce : Nat → Bytes → List Bytes → Formatted
  | 0, _, args | _, [], args => ⟨[], args, false, none⟩
  | fuel + 1, '\\' :: rest, args =>
    let (s, rest) := afterBackslash rest
    (formatOnce fuel rest args).after s
  | fuel + 1, '%' :: '%' :: rest, args => (formatOnce fuel rest args).after ['%']
  | fuel + 1, '%' :: rest, args =>
    match Slot.read? rest with
    | none => ⟨[], args, true, some "missing format character".toList⟩
    | some (slot, rest) =>
      match slot.fill (args.head?.getD []) with
      | some (s, true) => ⟨s, args.drop 1, true, none⟩
      | some (s, false) => (formatOnce fuel rest (args.drop 1)).after s
      | none =>
        if ['d', 'i', 'u', 'o', 'x', 'X'].contains slot.kind then
          let f := (formatOnce fuel rest (args.drop 1)).after (slot.padNumber false ['0'])
          { f with fault := some ((args.head?.getD []) ++ ": expected numeric value".toList) }
        else ⟨[], args, true, some (['%', slot.kind] ++ ": invalid directive".toList)⟩
  | fuel + 1, c :: rest, args => (formatOnce fuel rest args).after [c]

/-- A format gone through again and again as long as it uses up arguments. -/
def formatAll (format : Bytes) : Nat → List Bytes → Formatted
  | 0, args => formatOnce format.length format args
  | fuel + 1, args =>
    let f := formatOnce format.length format args
    if f.ended || f.left.isEmpty || f.left.length = args.length then f
    else
      let g := formatAll format fuel f.left
      { g with text := f.text ++ g.text, fault := g.fault <|> f.fault }

def printf (line : Nat) (args : List Bytes) : ShellM Nat := do
  match args with
  | [] =>
    complain line "printf: usage: printf format [arg ...]".toList
    return 2
  | format :: args =>
    let f := formatAll format args.length args
    write .output f.text
    match f.fault with
    | some what =>
      complain line ("printf: ".toList ++ what)
      return if f.ended then 2 else 1
    | none => return 0

/-- A line of the input up to its end, each character with whether it was escaped, and whether the
line has an end. -/
def takeLine (raw : Bool) : Bytes → List (Char × Bool) × Bool × Bytes
  | [] => ([], false, [])
  | ['\\'] => (if raw then [('\\', false)] else [], false, [])
  | c :: d :: rest =>
    if c = '\n' then ([], true, d :: rest)
    else if c = '\\' ∧ !raw then
      let (cs, ended, rest) := takeLine raw rest
      (if d = '\n' then cs else (d, true) :: cs, ended, rest)
    else
      let (cs, ended, rest) := takeLine raw (d :: rest)
      ((c, false) :: cs, ended, rest)
  | [c] => if c = '\n' then ([], true, []) else ([(c, false)], false, [])

def isGap (c : Char) : Bool := c = ' ' || c = '\t' || c = '\n'

/-- A row of characters shared out among names; the last one gets what remains. -/
def shareOut (separators : Bytes) : List Bytes → List (Char × Bool) → List (Bytes × Bytes)
  | [], _ => []
  | name :: names, cs =>
    let parts := fun (p : Char × Bool) => separators.contains p.1 && !p.2
    let gap := fun (p : Char × Bool) => parts p && isGap p.1
    let cs := cs.dropWhile gap
    if names = [] then [(name, ((cs.reverse.dropWhile gap).reverse).map (·.1))]
    else
      let field := cs.takeWhile (!parts ·)
      let rest := (cs.drop field.length).dropWhile gap
      let rest := if rest.head?.any parts then rest.drop 1 else rest
      (name, field.map (·.1)) :: shareOut separators names rest

def read (line : Nat) (args : List Bytes) : ShellM Nat := do
  let raw := args.head? = some "-r".toList
  let names := if raw then args.drop 1 else args
  if names = [] then
    complain line "read: arg count".toList
    return 2
  let sh ← get
  let (cs, ended, rest) := takeLine raw sh.input
  let values := shareOut sh.separators names (cs.filter (·.1 ≠ '\x00'))
  set (values.foldl (fun sh (name, value) => sh.assigned name value) { sh with input := rest })
  return if ended then 0 else 1

def comparison? (sign : Bytes) : Option (Int → Int → Bool) :=
  match String.ofList sign with
  | "-eq" => some (· == ·)
  | "-ne" => some (· != ·)
  | "-lt" => some (· < ·)
  | "-le" => some (· ≤ ·)
  | "-gt" => some (· > ·)
  | "-ge" => some (· ≥ ·)
  | _ => none

/-- Whether a test holds, or what is wrong with it. -/
def holds : List Bytes → Except Bytes Bool
  | [] => .ok false
  | [s] => .ok (s ≠ [])
  | ['!'] :: rest => (holds rest).map (!·)
  | [['-', 'z'], s] => .ok (s = [])
  | [['-', 'n'], s] => .ok (s ≠ [])
  | [a, sign, b] =>
    if sign = ['='] then .ok (a = b)
    else if sign = "!=".toList then .ok (a ≠ b)
    else match comparison? sign with
      | none => .error (sign ++ ": unexpected operator".toList)
      | some compare =>
        match intOf? a, intOf? b with
        | some n, some m =>
          if a = [] ∨ b = [] then .error "Illegal number: ".toList else .ok (compare n m)
        | none, _ => .error ("Illegal number: ".toList ++ a)
        | _, none => .error ("Illegal number: ".toList ++ b)
  | a :: _ => .error (a ++ ": unexpected operator".toList)

def test (line : Nat) (name : String) (args : List Bytes) : ShellM Nat := do
  match holds args with
  | .ok true => return 0
  | .ok false => return 1
  | .error what =>
    complain line (name.toList ++ ": ".toList ++ what)
    return 2

/-- Something is wrong that ends the script. -/
def giveUp {α : Type} (line : Nat) (what : Bytes) : ShellM α := do
  complain line what
  throw (.exited 2)

/-- The number that an argument gives, or a usual one where there is none. -/
def countArg (line : Nat) (name : String) (usual : Nat) : List Bytes → ShellM Nat
  | [] => pure usual
  | s :: _ =>
    match Text.natOfDigits? 10 s with
    | some n => pure n
    | none => giveUp line (name.toList ++ ": Illegal number: ".toList ++ s)

def signalNumbers : List (String × Nat) :=
  [("HUP", 1), ("INT", 2), ("QUIT", 3), ("ILL", 4), ("TRAP", 5), ("ABRT", 6), ("BUS", 7), ("FPE", 8),
    ("KILL", 9), ("USR1", 10), ("SEGV", 11), ("USR2", 12), ("PIPE", 13), ("ALRM", 14), ("TERM", 15),
    ("CHLD", 17), ("CONT", 18), ("URG", 23), ("WINCH", 28)]

def terminate : Nat := 15

/-- Signals that a process that does not ask for them never notices. -/
def harmless : List Nat := [0, 17, 18, 23, 28]

def signal? (s : Bytes) : Option Nat :=
  match Text.natOfDigits? 10 s with
  | some n => some n
  | none => signalNumbers.lookup (String.ofList s)

/-- A signal sent to the script itself ends it; there is no other process to send one to. -/
def kill (line : Nat) (args : List Bytes) : ShellM Nat := do
  let (signal, targets) := match args with
    | ['-', 's'] :: s :: rest => (signal? s, rest)
    | ('-' :: s) :: rest => (signal? s, rest)
    | rest => (some terminate, rest)
  match signal with
  | none => giveUp line "kill: invalid signal number or name".toList
  | some n =>
    if targets.contains (Text.decimal ownNumber) then
      if harmless.contains n then return 0 else throw .killed
    else
      complain line "kill: No such process".toList
      return 1

def named? (line : Nat) (name : Bytes) : Option (List Bytes → ShellM Nat) :=
  match String.ofList name with
  | ":" | "true" => some fun _ => pure 0
  | "false" => some fun _ => pure 1
  | "echo" => some echo
  | "pwd" => some fun _ => do
    write .output ((← get).value "PWD".toList ++ ['\n'])
    return 0
  | "printf" => some (printf line)
  | "read" => some (read line)
  | "test" => some (test line "test")
  | "[" => some fun args =>
    if args.getLast? = some [']'] then test line "[" args.dropLast
    else do
      complain line "[: missing ]".toList
      return 2
  | "kill" => some (kill line)
  | "exit" => some fun args => do
    let n ← countArg line "exit" (← get).status args
    throw (.exited (n % 256))
  | "break" => some fun args => do throw (.leave (← countArg line "break" 1 args))
  | "continue" => some fun args => do throw (.again (← countArg line "continue" 1 args))
  | "shift" => some fun args => do
    let n ← countArg line "shift" 1 args
    if (← get).args.length < n then giveUp line "shift: can't shift that many".toList
    else
      modify fun sh => { sh with args := sh.args.drop n }
      return 0
  | "set" => some fun args => do
    if args.head? = some "--".toList then modify fun sh => { sh with args := args.drop 1 }
    return 0
  | "unset" => some fun names => do
    modify fun sh => names.foldl unassigned sh
    return 0
  | _ => none

end Keyring.Script.Builtin

import Keyring.Text.Blank
import Keyring.Text.Numeral

/-!
# The grammar of command lines

Commands stand in groups. Options may be given at every level down to the
command; what is no option is a word. `--` ends the options.
-/

namespace Keyring.CommandLine

inductive Takes where
  | nothing
  | text
  /-- A text that is not empty. -/
  | path
  /-- A number below a bound. -/
  | number (bound : Nat)
deriving DecidableEq, Repr

structure OptionRule where
  name : String
  takes : Takes
  repeats : Bool
deriving DecidableEq, Repr

/-- A command with its options and how many words it takes, or a group of such. -/
inductive Shape where
  | command (options : List OptionRule) (least : Nat) (most : Option Nat)
  | group (members : List (String × Shape))

def flag (name : String) : OptionRule := ⟨name, .nothing, false⟩
def textOption (name : String) : OptionRule := ⟨name, .text, false⟩
def pathOption (name : String) : OptionRule := ⟨name, .path, false⟩
def numberOption (name : String) (bound : Nat) : OptionRule := ⟨name, .number bound, false⟩
def repeatedOption (name : String) : OptionRule := ⟨name, .text, true⟩

/-- A number below a bound, with a sign or without. -/
def signedBelow? (bound : Nat) (s : String) : Option Nat :=
  match s.toList with
  | '-' :: digits => (Text.natOfDigits? 10 digits).filter (· = 0)
  | _ => Text.boundedNat? bound s

def Takes.accepts : Takes → String → Bool
  | nothing, _ => false
  | text, _ => true
  | path, s => !s.isEmpty
  | number bound, s => (signedBelow? bound s).isSome

structure Level where
  flags : List String
  values : List (String × String)
  words : List String
deriving DecidableEq, Repr

namespace Level

def empty : Level := ⟨[], [], []⟩

def has (l : Level) (name : String) : Bool := l.flags.contains name || (l.values.lookup name).isSome

def value? (l : Level) (name : String) : Option String := l.values.lookup name

/-- Every value of an option that may be repeated. -/
def valuesOf (l : Level) (name : String) : List String :=
  (l.values.filter (·.1 = name)).map Prod.snd

def number? (l : Level) (name : String) (bound : Nat) : Option Nat :=
  (l.value? name).bind (signedBelow? bound)

end Level

inductive Stop where
  | misuse
  | help
  /-- The version is asked for, under the names of the groups and the command that lead there. -/
  | version (names : List String)
deriving DecidableEq, Repr

/-- The same for a line that names a group or command first. -/
def Stop.under (name : String) : Stop → Stop
  | version names => version (name :: names)
  | stop => stop

/-- The names of the groups and the command, and what was given at each level. -/
abbrev Given := List String × List Level

/-- A token that can be no value of an option. -/
def looksLikeOption (token : String) : Bool := token.toList.head? = some '-' && token ≠ "-"

/-- An option as `--name` or `--name=value`. -/
def longOption? (token : String) : Option (String × Option String) :=
  match token.toList with
  | '-' :: '-' :: rest =>
    match Text.cut (· = '=') rest with
    | some (name, value) => some (String.ofList name, some (String.ofList value))
    | none => some (String.ofList rest, none)
  | _ => none

/-- A flag set; it may be set once at a level. -/
def setFlag (l : Level) (name : String) : Except Stop Level :=
  if l.flags.contains name then .error .misuse else .ok { l with flags := l.flags ++ [name] }

def setValue (rule : OptionRule) (l : Level) (value : String) : Except Stop Level :=
  if !rule.takes.accepts value || (!rule.repeats && l.has rule.name) then .error .misuse
  else .ok { l with values := l.values ++ [(rule.name, value)] }

def setLetters (jsonName : String) (l : Level) : List Char → Except Stop Level
  | [] => .ok l
  | 'j' :: rest => do setLetters jsonName (← setFlag l jsonName) rest
  | 'h' :: _ => .error .help
  | 'V' :: _ => .error (.version [])
  | _ :: _ => .error .misuse

/-- Whether names lead to a group or command. -/
def leadsOn : Shape → List String → Bool
  | _, [] => true
  | .command .., _ :: _ => false
  | .group members, name :: rest =>
    match members.lookup name with
    | some shape => leadsOn shape rest
    | none => name = "help" && rest = []

/-- Options allowed at every level. -/
structure Common where
  options : List OptionRule
  /-- The flag that `-j` sets as well. -/
  jsonName : String

def optionsOf (common : Common) : Shape → List OptionRule
  | .command options _ _ => common.options ++ options
  | .group _ => common.options

def memberOf? : Shape → String → Option Shape
  | .group members, name => members.lookup name
  | .command .., _ => none

/-- A level at the end of the line: a group lacks its command, a command may lack words. -/
def closeLevel (shape : Shape) (l : Level) : Except Stop Given :=
  match shape with
  | .group _ => .error .misuse
  | .command _ least _ => if l.words.length < least then .error .misuse else .ok ([], [l])

/-- A word of a command; it takes only so many, and a group none. -/
def addWord (shape : Shape) (l : Level) (word : String) : Except Stop Level :=
  match shape with
  | .group _ => .error .misuse
  | .command _ _ most =>
    if most.any (· ≤ l.words.length) then .error .misuse
    else .ok { l with words := l.words ++ [word] }

/-- Whether a group or command, or the word `help`, comes next in a group. -/
def namesMember (shape : Shape) : List String → Bool
  | [] => false
  | token :: _ => match shape with
    | .group members => (members.lookup token).isSome || token = "help"
    | .command .. => false

/-- What stops a line, unless what is read of it asks for help or the version. -/
def unlessAsked (stop : Stop) : Except Stop Given → Except Stop Given
  | .ok _ => .error stop
  | .error .misuse => .error stop
  | asked => asked

/-- The tokens of a line at a level. After `--` (`ended`) all are words. A wrong value that stands
right before a command is refused only after that command has been read. -/
def read (common : Common) (shape : Shape) (l : Level) (ended : Bool) :
    List String → Except Stop Given
  | [] => closeLevel shape l
  | token :: rest =>
    if ended then do read common shape (← addWord shape l token) ended rest
    else match memberOf? shape token with
      | some member => do
        match read common member .empty false rest with
        | .ok (names, levels) => return (token :: names, l :: levels)
        | .error stop => throw (stop.under token)
      | none =>
        match shape, token with
        | .group _, "help" => .error (if leadsOn shape rest then .help else .misuse)
        | _, "--" => read common shape l true rest
        | _, _ =>
          match longOption? token with
          | some ("help", none) => .error .help
          | some ("version", none) => .error (.version [])
          | some (name, attached) =>
            match (optionsOf common shape).find? (·.name = name) with
            | none => .error .misuse
            | some rule =>
              match rule.takes, attached with
              | .nothing, none => do read common shape (← setFlag l name) false rest
              | .nothing, some _ => .error .misuse
              | _, some value => do read common shape (← setValue rule l value) false rest
              | _, none =>
                match rest with
                | [] => .error .misuse
                | value :: rest =>
                  if looksLikeOption value then .error .misuse
                  else match setValue rule l value with
                    | .ok l => read common shape l false rest
                    | .error stop =>
                      if namesMember shape rest then
                        unlessAsked stop (read common shape l false rest)
                      else .error stop
          | none =>
            if looksLikeOption token then do
              read common shape (← setLetters common.jsonName l (token.toList.drop 1)) false rest
            else do read common shape (← addWord shape l token) false rest

end Keyring.CommandLine

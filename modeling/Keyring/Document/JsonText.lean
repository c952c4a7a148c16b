import Keyring.Document.Data
import Keyring.Text.Numeral

/-!
# Data written as JSON

With an item to a line and two spaces for each level.
-/

namespace Keyring.Json

/-- A character of a quoted text: only quotes, backslashes and control characters are escaped. -/
def escaped (c : Char) : List Char :=
  match c with
  | '"' => ['\\', '"']
  | '\\' => ['\\', '\\']
  | '\n' => ['\\', 'n']
  | '\r' => ['\\', 'r']
  | '\t' => ['\\', 't']
  | '\x08' => ['\\', 'b']
  | '\x0c' => ['\\', 'f']
  | c => if c.toNat < 32 then '\\' :: 'u' :: Text.hexPadded 4 c.toNat else [c]

def quoted (s : String) : List Char := '"' :: s.toList.flatMap escaped ++ ['"']

def scalar : Data → List Char
  | .null => "null".toList
  | .flag true => "true".toList
  | .flag false => "false".toList
  | .number n => Text.integer n
  | .text s => quoted s
  | _ => "null".toList

def newLine (depth : Nat) : List Char := '\n' :: List.replicate (2 * depth) ' '

mutual

/-- Data written at a level; an empty list or record takes no line of its own. -/
def pretty (depth : Nat) : Data → List Char
  | .list [] => ['[', ']']
  | .list (d :: rest) =>
    '[' :: newLine (depth + 1) ++ pretty (depth + 1) d ++ prettyItems (depth + 1) rest
      ++ newLine depth ++ [']']
  | .record [] => ['{', '}']
  | .record ((name, d) :: rest) =>
    '{' :: newLine (depth + 1) ++ quoted name ++ ':' :: ' ' :: pretty (depth + 1) d
      ++ prettyFields (depth + 1) rest ++ newLine depth ++ ['}']
  | d => scalar d

def prettyItems (depth : Nat) : List Data → List Char
  | [] => []
  | d :: rest => ',' :: newLine depth ++ pretty depth d ++ prettyItems depth rest

def prettyFields (depth : Nat) : List (String × Data) → List Char
  | [] => []
  | (name, d) :: rest =>
    ',' :: newLine depth ++ quoted name ++ ':' :: ' ' :: pretty depth d ++ prettyFields depth rest

end

/-- Data as a JSON text of many lines. -/
def prettyText (d : Data) : String := String.ofList (pretty 0 d)

end Keyring.Json

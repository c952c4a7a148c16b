import Keyring.Yaml.Token
import Keyring.Yaml.Token.Block
import Keyring.Yaml.Token.Quoted
import Keyring.Yaml.Token.Tag

/-!
# From a text to tokens

What stands before a colon turns out to be a key only at the colon. The place of
its token is remembered, and the tokens that open a key are put there later.
-/

namespace Keyring.Yaml

/-- A token that may turn out to be a key: on one line, and not too far back. -/
structure KeyPlace where
  /-- How many tokens stand before it. -/
  position : Nat
  line : Nat
  column : Nat
  index : Nat
  /-- It stands at the indentation of a block mapping and must be a key. -/
  required : Bool

def keyReach : Nat := 1024

structure Lexer where
  cursor : Cursor
  /-- The tokens read, the last one first. -/
  done : List Token
  /-- How many they are. -/
  count : Nat
  /-- The indentation of the innermost block, `-1` outside of all. -/
  indent : Int
  outerIndents : List Int
  /-- For each flow collection that is open, and for the block around them, what may be a key. -/
  places : List (Option KeyPlace)
  /-- A key may start here. -/
  keyAllowed : Bool

namespace Lexer

def start (cs : List Char) : Lexer := ⟨Cursor.start cs, [], 0, -1, [], [none], true⟩

def inFlow (x : Lexer) : Bool := !x.places.tail.isEmpty

def add (x : Lexer) (t : Token) : Lexer := { x with done := t :: x.done, count := x.count + 1 }

/-- A token put before all but the first `position` tokens. -/
def insert (x : Lexer) (position : Nat) (t : Token) : Lexer :=
  { x with done := x.done.insertIdx (x.count - position) t, count := x.count + 1 }

/-- The blocks right of a column are closed. -/
def closeBlocks (column : Int) : List Int → Lexer → Lexer
  | outer :: more, x =>
    if column < x.indent then
      closeBlocks column more { x.add .blockEnd with indent := outer, outerIndents := more }
    else x
  | [], x => x

def unroll (x : Lexer) (column : Int) : Lexer :=
  if x.inFlow then x else closeBlocks column x.outerIndents x

/-- A block is opened where its first token stands right of the blocks around it. -/
def roll (x : Lexer) (column position : Nat) (t : Token) : Lexer :=
  if x.inFlow then x
  else if x.indent < column then
    { x.insert position t with indent := column, outerIndents := x.indent :: x.outerIndents }
  else x

def rollHere (x : Lexer) (t : Token) : Lexer := x.roll x.cursor.column x.count t

/-- What must have been a key is refused, what may have been one is not. -/
def dropPlace? (x : Lexer) : Option Lexer :=
  match x.places with
  | some p :: more => if p.required then none else some { x with places := none :: more }
  | _ => some x

def savePlace? (x : Lexer) : Option Lexer :=
  if x.keyAllowed then do
    let x ← x.dropPlace?
    let place : KeyPlace := {
      position := x.count
      line := x.cursor.line
      column := x.cursor.column
      index := x.cursor.index
      required := !x.inFlow && x.indent = x.cursor.column }
    some { x with places := some place :: x.places.tail }
  else some x

/-- The place of the key that ends here, if one does. -/
def keyHere? (x : Lexer) : Option (Option KeyPlace) :=
  match x.places with
  | some p :: _ =>
    if p.line < x.cursor.line || p.index + keyReach < x.cursor.index then
      if p.required then none else some none
    else some (some p)
  | _ => some none

def take (x : Lexer) (n : Nat) (t : Token) : Lexer := { x.add t with cursor := x.cursor.skip n }

def allow (x : Lexer) (b : Bool) : Lexer := { x with keyAllowed := b }

def documentLine? (x : Lexer) (t : Token) : Option Lexer := do
  let x ← (x.unroll (-1)).dropPlace?
  some ((x.allow false).take 3 t)

def directive? (x : Lexer) : Option Lexer := do
  let x ← (x.unroll (-1)).dropPlace?
  let (t, c) ← scanDirective? (x.cursor.skip 1)
  some { (x.allow false).add t with cursor := c }

def openFlow? (x : Lexer) (t : Token) : Option Lexer := do
  let x ← x.savePlace?
  some (({ x with places := none :: x.places }.allow true).take 1 t)

def closeFlow? (x : Lexer) (t : Token) : Option Lexer := do
  let x ← x.dropPlace?
  some (({ x with places := if x.inFlow then x.places.tail else x.places }.allow false).take 1 t)

def comma? (x : Lexer) : Option Lexer := do
  let x ← x.dropPlace?
  some ((x.allow true).take 1 .flowEntry)

def dash? (x : Lexer) : Option Lexer := do
  if !x.inFlow && !x.keyAllowed then none
  else
    let x ← (x.rollHere .blockSequenceStart).dropPlace?
    some ((x.allow true).take 1 .blockEntry)

def key? (x : Lexer) : Option Lexer := do
  if !x.inFlow && !x.keyAllowed then none
  else
    let x ← (x.rollHere .blockMappingStart).dropPlace?
    some ((x.allow !x.inFlow).take 1 .key)

/-- A colon: the key before it gets its tokens now. -/
def value? (x : Lexer) : Option Lexer := do
  match ← x.keyHere? with
  | some p =>
    let x := (x.insert p.position .key).roll p.column p.position .blockMappingStart
    some (({ x with places := none :: x.places.tail }.allow false).take 1 .value)
  | none =>
    if !x.inFlow && !x.keyAllowed then none
    else some (((x.rollHere .blockMappingStart).allow !x.inFlow).take 1 .value)

def node? (x : Lexer) (scan : Lexer → Option (Token × Cursor)) : Option Lexer := do
  let x ← x.savePlace?
  let (t, c) ← scan x
  some { (x.allow false).add t with cursor := c }

def anchor? (x : Lexer) (token : String → Token) : Option Lexer :=
  x.node? fun x => (scanAnchor? (x.cursor.skip 1)).map fun (name, c) => (token name, c)

def tag? (x : Lexer) : Option Lexer := x.node? fun x => scanTag? x.inFlow x.cursor

def quoted? (size : Nat) (x : Lexer) (single : Bool) : Option Lexer :=
  x.node? fun x =>
    (scanQuoted? single size (size + 1) [] (x.cursor.skip 1)).map fun (text, c) =>
      (.scalar (if single then .singleQuoted else .doubleQuoted) (String.ofList text), c)

def block? (size : Nat) (x : Lexer) (literal : Bool) : Option Lexer := do
  let x ← x.dropPlace?
  let (text, c) ← scanBlock? literal x.indent size (x.cursor.skip 1)
  some { (x.allow true).add (.scalar (if literal then .literal else .folded) (String.ofList text)) with
    cursor := c }

/-- A plain scalar; a key may follow when a line ended after it. -/
def plain? (size : Nat) (x : Lexer) : Option Lexer := do
  let x ← x.savePlace?
  let (text, folded, c) ←
    scanPlain? x.inFlow (x.indent + 1) size (size + 1) [] Gap.none x.cursor
  some { (x.allow folded).add (.scalar .plain (String.ofList text)) with cursor := c }

/-- The characters that no plain scalar starts with. -/
def startsNoPlain (c : Char) : Bool :=
  isGap c || "-?:,[]{}#&*!|>'\"%@\x60".toList.contains c

/-- To the next token: past blanks, comments and line ends. A tab may not stand where a key may. A
byte order mark that starts a line takes a column of it. -/
def toToken : Nat → Lexer → Lexer
  | 0, x => x
  | fuel + 1, x =>
    let c := x.cursor
    let c := if c.column = 0 && c.rest.head?.any isMark then c.skip 1 else c
    let tabs := x.inFlow || !x.keyAllowed
    let c := (c.skipWhile fun d => d = ' ' || (tabs && d = '\t')).skipComment
    if c.atLineEnd then
      toToken fuel { x with cursor := c.nextLine, keyAllowed := x.keyAllowed || !x.inFlow }
    else { x with cursor := c }

/-- The token at the cursor. At most `size` characters are left. -/
def token? (size : Nat) (x : Lexer) : Option Lexer :=
  let c := x.cursor
  let gap := c.gapAt 1
  match c.rest with
  | [] => none
  | d :: _ =>
    if c.column = 0 && d = '%' then x.directive?
    else if c.seesRule '-' then x.documentLine? .documentStart
    else if c.seesRule '.' then x.documentLine? .documentEnd
    else if d = '[' then x.openFlow? .flowSequenceStart
    else if d = '{' then x.openFlow? .flowMappingStart
    else if d = ']' then x.closeFlow? .flowSequenceEnd
    else if d = '}' then x.closeFlow? .flowMappingEnd
    else if d = ',' then x.comma?
    else if d = '-' && gap then x.dash?
    else if d = '?' && (x.inFlow || gap) then x.key?
    else if d = ':' && (x.inFlow || gap) then x.value?
    else if d = '*' then x.anchor? .reference
    else if d = '&' then x.anchor? .anchor
    else if d = '!' then x.tag?
    else if d = '|' && !x.inFlow then x.block? size true
    else if d = '>' && !x.inFlow then x.block? size false
    else if d = '\'' then x.quoted? size true
    else if d = '"' then x.quoted? size false
    else if !startsNoPlain d || (d = '-' && !(c.peek 1).any isSpaceOrTab)
        || (!x.inFlow && (d = '?' || d = ':') && !gap) then x.plain? size
    else none

/-- The end of the text closes every block. -/
def finish? (x : Lexer) : Option Lexer := (x.unroll (-1)).dropPlace?

/-- Each token takes at least one character of the `size` that are left at most. -/
def run? : Nat → Lexer → Option Lexer
  | 0, _ => none
  | size + 1, x =>
    let x := toToken (size + 1) x
    let x := x.unroll x.cursor.column
    if x.cursor.atEnd then x.finish? else (x.token? size).bind (run? size)

end Lexer

def Token.scan? (text : String) : Option (List Token) :=
  let cs := text.toList
  if cs.all isAllowed then (Lexer.run? (cs.length + 1) (Lexer.start cs)).map (·.done.reverse)
  else none

end Keyring.Yaml

import Keyring.Document.Format
import Keyring.Yaml.Scalar
import Keyring.Yaml.Token.Lexer

/-!
# Nodes

The scalars, sequences and mappings that a row of tokens spells. A node may be
anchored and referred to from elsewhere.
-/

namespace Keyring.Yaml

inductive Node where
  | scalar (style : Style) (tag : Option Tag) (text : String)
  | sequence (items : List Node)
  | mapping (fields : List (Node × Node))
  /-- The node that has a number among the anchored ones. -/
  | reference (number : Nat)
deriving Inhabited

namespace Node

/-- A node that is not written at all. -/
def missing : Node := .scalar .plain none ""

mutual

/-- The scalars and references of a node, and the starts and ends of its collections. -/
def size : Node → Nat
  | scalar .. | reference _ => 1
  | sequence items => sizeOfItems items + 2
  | mapping fields => sizeOfFields fields + 2

def sizeOfItems : List Node → Nat
  | [] => 0
  | item :: rest => size item + sizeOfItems rest

def sizeOfFields : List (Node × Node) → Nat
  | [] => 0
  | (key, value) :: rest => size key + size value + sizeOfFields rest

end

end Node

/-- Anchors and the nodes they stand at. An anchor gets as its number how many names were known;
the last node to get a number has it. -/
structure Anchors where
  numbers : List (String × Nat)
  /-- The number of each anchored node, the last one first. -/
  marked : List Nat
  /-- Anchored nodes by their place in that row, counted from the first. -/
  nodes : List (Nat × Node)

namespace Anchors

def empty : Anchors := ⟨[], [], []⟩

/-- A name marked, with the place of its node. -/
def mark (a : Anchors) (name : String) : Nat × Anchors :=
  let number := a.numbers.length
  (a.marked.length, { a with
    numbers := (name, number) :: a.numbers.filter (·.1 ≠ name)
    marked := number :: a.marked })

def store (a : Anchors) (place : Nat) (node : Node) : Anchors :=
  { a with nodes := (place, node) :: a.nodes }

def node? (a : Anchors) (number : Nat) : Option Node :=
  (a.marked.reverse.zipIdx.filter (·.1 = number)).getLast?.bind fun (_, place) =>
    a.nodes.lookup place

/-- The nodes in the order of their numbers. -/
def table (a : Anchors) : Array Node :=
  ((List.range a.marked.length).map fun n => (a.node? n).getD .missing).toArray

end Anchors

/-! ## From tokens to nodes -/

structure Composer where
  tokens : List Token
  handles : List (String × Tag)
  anchors : Anchors

abbrev Compose := StateT Composer Option

namespace Compose

def peek : Compose (Option Token) := return (← get).tokens.head?

def advance : Compose Unit := modify fun s => { s with tokens := s.tokens.tail }

/-- Past a token if it comes next. -/
def accept (t : Token) : Compose Bool := do
  if (← peek) = some t then advance; return true else return false

def expect (t : Token) : Compose Unit := do
  if !(← accept t) then failure

def comes (ts : List Token) : Compose Bool := return (← peek).any (ts.contains ·)

/-- The tag that a handle and a text spell; the handle must be known. -/
def resolveTag (handle : String) (suffix : Tag) : Compose Tag := do
  if handle.isEmpty then return suffix
  match (← get).handles.lookup handle with
  | some front => return front ++ suffix
  | none => failure

def acceptAnchor : Compose (Option String) := do
  match ← peek with
  | some (.anchor name) => advance; return some name
  | _ => return none

def acceptTag : Compose (Option (String × Tag)) := do
  match ← peek with
  | some (.tag handle suffix) => advance; return some (handle, suffix)
  | _ => return none

/-- Anchor and tag of a node, in either order. -/
def properties : Compose (Option String × Option Tag) := do
  let anchor ← acceptAnchor
  let tag ← acceptTag
  let anchor ← if anchor.isNone && tag.isSome then acceptAnchor else pure anchor
  match tag with
  | some (handle, suffix) => return (anchor, some (← resolveTag handle suffix))
  | none => return (anchor, none)

/-- The place kept for an anchored node. -/
def markAnchor : Option String → Compose (Option Nat)
  | none => return none
  | some name => modifyGet fun s =>
    let (place, anchors) := s.anchors.mark name
    (some place, { s with anchors })

def storeAnchor (place : Option Nat) (node : Node) : Compose Node := do
  if let some place := place then modify fun s => { s with anchors := s.anchors.store place node }
  return node

/-- A node that has properties and nothing else. -/
def bare (anchor : Option String) (tag : Option Tag) : Compose Node :=
  if anchor.isSome || tag.isSome then pure (.scalar .plain tag "") else failure

mutual

/-- A node. Outside of flow collections it may be a block; as a key or value of a block mapping
it may be a sequence that is not indented. -/
def node (block indentless : Bool) : Nat → Compose Node
  | 0 => failure
  | fuel + 1 => do
    if let some (.reference name) := ← peek then
      advance
      match (← get).anchors.numbers.lookup name with
      | some n => return .reference n
      | none => failure
    else
      let (anchor, tag) ← properties
      let place ← markAnchor anchor
      let content : Node ← match ← peek with
        | some (.scalar style text) => do advance; pure (.scalar style tag text)
        | some .flowSequenceStart => do advance; pure (.sequence (← flowItems true fuel))
        | some .flowMappingStart => do advance; pure (.mapping (← flowFields true fuel))
        | some .blockEntry =>
          if indentless then do pure (.sequence (← indentlessItems fuel)) else bare anchor tag
        | some .blockSequenceStart =>
          if block then do advance; pure (.sequence (← blockItems fuel)) else bare anchor tag
        | some .blockMappingStart =>
          if block then do advance; pure (.mapping (← blockFields fuel)) else bare anchor tag
        | _ => bare anchor tag
      storeAnchor place content

/-- A node, or a missing one before any of some tokens. -/
def nodeUnless (stops : List Token) (block indentless : Bool) : Nat → Compose Node
  | 0 => failure
  | fuel + 1 => do if ← comes stops then pure .missing else node block indentless fuel

def blockItems : Nat → Compose (List Node)
  | 0 => failure
  | fuel + 1 => do
    if ← accept .blockEntry then
      let item ← nodeUnless [.blockEntry, .blockEnd] true false fuel
      return item :: (← blockItems fuel)
    else
      expect .blockEnd
      return []

def indentlessItems : Nat → Compose (List Node)
  | 0 => failure
  | fuel + 1 => do
    if ← accept .blockEntry then
      let item ← nodeUnless [.blockEntry, .key, .value, .blockEnd] true false fuel
      return item :: (← indentlessItems fuel)
    else return []

def blockFields : Nat → Compose (List (Node × Node))
  | 0 => failure
  | fuel + 1 => do
    if ← accept .key then
      let key ← nodeUnless [.key, .value, .blockEnd] true true fuel
      let value ← if ← accept .value then nodeUnless [.key, .value, .blockEnd] true true fuel
        else pure .missing
      return (key, value) :: (← blockFields fuel)
    else
      expect .blockEnd
      return []

/-- The items of a flow sequence; a key among them starts a mapping of one field. -/
def flowItems (first : Bool) : Nat → Compose (List Node)
  | 0 => failure
  | fuel + 1 => do
    if ← accept .flowSequenceEnd then return []
    if !first then expect .flowEntry
    if ← accept .flowSequenceEnd then return []
    let item ← if ← accept .key then flowPair fuel else node false false fuel
    return item :: (← flowItems false fuel)

/-- A mapping of one field within a flow sequence. Where its key is missing, so is the mark after
it. -/
def flowPair : Nat → Compose Node
  | 0 => failure
  | fuel + 1 => do
    let key ←
      if ← comes [.value, .flowEntry, .flowSequenceEnd] then do advance; pure .missing
      else node false false fuel
    let value ← if ← accept .value then nodeUnless [.flowEntry, .flowSequenceEnd] false false fuel
      else pure .missing
    return .mapping [(key, value)]

def flowFields (first : Bool) : Nat → Compose (List (Node × Node))
  | 0 => failure
  | fuel + 1 => do
    if ← accept .flowMappingEnd then return []
    if !first then expect .flowEntry
    if ← accept .flowMappingEnd then return []
    if ← accept .key then
      let key ← nodeUnless [.value, .flowEntry, .flowMappingEnd] false false fuel
      let value ← if ← accept .value then nodeUnless [.flowEntry, .flowMappingEnd] false false fuel
        else pure .missing
      return (key, value) :: (← flowFields false fuel)
    else
      let key ← node false false fuel
      return (key, .missing) :: (← flowFields false fuel)

end

/-- The handles that are known without being declared. -/
def standardHandles : List (String × Tag) :=
  [("!", Text.utf8Bytes "!"), ("!!", Text.utf8Bytes "tag:yaml.org,2002:")]

/-- The directives before a document: one version at most, and each handle once. -/
def directives (versioned : Bool) (handles : List (String × Tag)) : Nat → Compose Bool
  | 0 => failure
  | fuel + 1 => do
    match ← peek with
    | some (.version major minor) =>
      if versioned || major ≠ 1 || !(minor = 1 || minor = 2) then failure
      advance
      let _ ← directives true handles fuel
      return true
    | some (.tagHandle handle front) =>
      if (handles.lookup handle).isSome then failure
      advance
      let _ ← directives versioned ((handle, front) :: handles) fuel
      return true
    | _ =>
      modify fun s => { s with handles := handles ++ standardHandles }
      return false

def skipDocumentEnds : Nat → Compose Unit
  | 0 => failure
  | fuel + 1 => do if ← accept .documentEnd then skipDocumentEnds fuel

/-- The one document of a text; after it nothing but its end may stand. -/
def document (fuel : Nat) : Compose Node := do
  if (← peek).isNone then return .missing
  let directed ← directives false [] fuel
  let marked ← accept .documentStart
  if directed && !marked then failure
  let empty ← do
    if (← peek).isNone then pure true
    else if marked then pure ((← peek).any fun
      | .documentStart | .documentEnd | .version .. | .tagHandle .. => true
      | _ => false)
    else pure false
  let root ← if empty then pure .missing else node true false fuel
  skipDocumentEnds fuel
  if (← peek).isSome then failure
  return root

end Compose

/-- A node among the anchored nodes that it may refer to. -/
structure View where
  anchored : Array Node
  node : Node

namespace View

def at_ (v : View) (node : Node) : View := { v with node }

/-- The node itself, or the one that is referred to. -/
def target (v : View) : Reading Node :=
  match v.node with
  | .reference n => do
    Reading.follow
    Reading.ofOption v.anchored[n]?
  | n => return n

/-- The style, tag and text of a scalar. -/
def scalar? (v : View) : Reading (Style × Option Tag × String) := do
  match ← v.target with
  | .scalar style tag text => return (style, tag, text)
  | _ => failure

def text? (v : View) : Reading String := return (← v.scalar?).2.2

/-- The fields of a mapping by the texts of their keys; a missing node has no fields. -/
def fields? (v : View) : Reading (FieldRow View) := do
  match ← v.target with
  | .mapping fields =>
    return .named (← fields.mapM fun (key, value) => return (← (v.at_ key).text?, v.at_ value))
  | .scalar .plain _ "" => return .named []
  | _ => failure

def items? (v : View) : Reading (List View) := do
  match ← v.target with
  | .sequence items => return items.map v.at_
  | .scalar .plain _ "" => return []
  | _ => failure

def nullTag : Tag := Text.utf8Bytes "tag:yaml.org,2002:null"
def intTag : Tag := Text.utf8Bytes "tag:yaml.org,2002:int"
def flagTag : Tag := Text.utf8Bytes "tag:yaml.org,2002:bool"

/-- The text of a plain scalar, or of a literal one that a tag gives a kind. -/
def kindText? (v : View) (kind : Tag) : Reading String := do
  let (style, tag, text) ← v.scalar?
  if style = .plain || (style = .literal && tag = some kind) then return text else failure

def whole? (v : View) : Reading Nat := do Reading.ofOption (wholeOf? (← v.kindText? intTag))

def flag? (v : View) : Reading Bool := do Reading.ofOption (flagOf? (← v.kindText? flagTag))

/-- The name after the exclamation mark of a tag of its own, if it is a text. -/
def ownName? (tag : Tag) : Option String :=
  match tag with
  | mark :: name => if mark = '!'.toUInt8 then Text.textOfUtf8? name else none
  | [] => none

/-- A tag of its own names an alternative, else the text does. -/
def choice? (v : View) : Reading String := do
  let (style, tag, text) ← v.scalar?
  match tag.bind ownName? with
  | some name => if style = .plain && (text.isEmpty || isNullWord text) then return name else failure
  | none => return text

/-- Whether a plain scalar with a tag and a text stands for nothing. It is empty or a word for null,
and a tag that says something else keeps it from that. -/
def isAbsent? (tag : Option Tag) (text : String) : Option Bool :=
  match tag with
  | none => some (text.isEmpty || isNullWord text)
  | some tag => if tag = nullTag then if isNullWord text then some true else none else some false

def optional? (v : View) : Reading (Option View) := do
  let node ← v.target
  match node with
  | .scalar .plain tag text =>
    return if ← Reading.ofOption (isAbsent? tag text) then none else some (v.at_ node)
  | _ => return some (v.at_ node)

instance : Format View where
  fields? := fields?
  items? := items?
  text? := text?
  whole? := whole?
  flag? := flag?
  choice? := choice?
  optional? := optional?

end View

structure Document where
  root : Node
  anchored : Array Node

namespace Document

def ofText? (text : String) : Option Document := do
  let tokens ← Token.scan? text
  let (root, s) ← (Compose.document (4 * tokens.length + 4)).run ⟨tokens, [], .empty⟩
  some ⟨root, s.anchors.table⟩

/-- How many references may be followed for each part of a document. -/
def referencesPerPart : Nat := 100

/-- A reading of a document from its root on. -/
def read? {β : Type} (d : Document) (read : View → Reading β) : Option β :=
  (read ⟨d.anchored, d.root⟩).result? (d.root.size * referencesPerPart)

end Document

end Keyring.Yaml

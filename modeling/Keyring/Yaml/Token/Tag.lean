import Keyring.Text.Numeral
import Keyring.Text.Utf8
import Keyring.Yaml.Cursor
import Keyring.Yaml.Token

/-!
# Anchors, tags and directives

The properties of a node and the lines that stand before a document.
-/

namespace Keyring.Yaml

/-- A name ends at a gap or at one of these. -/
def endsAnchor (c : Char) : Bool :=
  isGap c || c = '?' || c = ':' || c = ',' || c = ']' || c = '}' || c = '%' || c = '@' || c = '\x60'

/-- The name of an anchor or alias after its mark. -/
def scanAnchor? (c : Cursor) : Option (String × Cursor) :=
  let name := c.run isWordChar
  let c := c.skip name.length
  if name ≠ [] && endOr endsAnchor c.rest.head? then some (String.ofList name, c) else none

/-- A character that a tag may hold; the marks of lists only where it is given in full. -/
def isTagChar (full : Bool) (c : Char) : Bool :=
  isWordChar c || ";/?:@&=+$.%!~*'()".toList.contains c || (full && (c = ',' || c = '[' || c = ']'))

/-- The number of bytes of a character by its first byte. -/
def escapedWidth? (first : Nat) : Option Nat :=
  if first < 0x80 then some 1
  else if first / 32 = 6 then some 2
  else if first / 16 = 14 then some 3
  else if first / 8 = 30 then some 4
  else none

/-- Escaped bytes at the start of a text. -/
def scanEscapedBytes? : Nat → List Char → Option (List UInt8 × List Char)
  | 0, cs => some ([], cs)
  | n + 1, '%' :: a :: b :: rest => do
    let byte ← Text.natOfDigits? 16 [a, b]
    let (more, rest) ← scanEscapedBytes? n rest
    some (UInt8.ofNat byte :: more, rest)
  | _, _ => none

/-- A character that is written as escaped bytes. -/
def scanEscapedChar? (cs : List Char) : Option (List UInt8 × List Char) := do
  let (first, _) ← scanEscapedBytes? 1 cs
  let width ← escapedWidth? ((first.head?.map UInt8.toNat).getD 0)
  let (bytes, rest) ← scanEscapedBytes? width cs
  if bytes.tail.all fun b => b.toNat / 64 = 2 then some (bytes, rest) else none

/-- The bytes that the text of a tag spells. -/
def unescapeTag? : Nat → List Char → Option (List UInt8)
  | _, [] => some []
  | 0, _ => none
  | fuel + 1, '%' :: rest => do
    let (bytes, rest) ← scanEscapedChar? ('%' :: rest)
    (unescapeTag? fuel rest).map (bytes ++ ·)
  | fuel + 1, c :: rest => (unescapeTag? fuel rest).map (String.utf8EncodeChar c ++ ·)

/-- The text of a tag after what was read of it already; together they hold something. A zero byte
ends the tag but not its text. -/
def scanTagText? (full : Bool) (front : List Char) (c : Cursor) : Option (Tag × Cursor) := do
  let cs := c.run (isTagChar full)
  let bytes ← unescapeTag? cs.length cs
  if front.length + cs.length = 0 then none
  else
    let tag := (front.drop 1).flatMap String.utf8EncodeChar ++ bytes
    some (tag.takeWhile (· ≠ 0), c.skip cs.length)

/-- An exclamation mark, word characters, and a second mark where there is one. -/
def scanHandle? (c : Cursor) : Option (List Char × Cursor) :=
  if !c.sees '!' then none
  else
    let name := (c.skip 1).run isWordChar
    let c := c.skip (name.length + 1)
    if c.sees '!' then some ('!' :: name ++ ['!'], c.skip 1) else some ('!' :: name, c)

/-- Two marks, or more around a name. -/
def isHandle (cs : List Char) : Bool := 1 < cs.length && cs.getLast? = some '!'

/-- A tag: in full between angle brackets, a handle and a text, or a text of its own. -/
def scanTagBody? (c : Cursor) : Option (Token × Cursor) :=
  if c.peek 1 = some '<' then do
    let (suffix, c) ← scanTagText? true [] (c.skip 2)
    if c.sees '>' then some (.tag "" suffix, c.skip 1) else none
  else do
    let (handle, c) ← scanHandle? c
    if isHandle handle then
      let (suffix, c) ← scanTagText? false [] c
      some (.tag (String.ofList handle) suffix, c)
    else
      let (suffix, c) ← scanTagText? false handle c
      if suffix = [] then some (.tag "" (Text.utf8Bytes "!"), c) else some (.tag "!" suffix, c)

/-- A tag ends at a gap, or at a comma within flow collections. -/
def scanTag? (inFlow : Bool) (c : Cursor) : Option (Token × Cursor) := do
  let (token, c) ← scanTagBody? c
  if (inFlow && c.sees ',') || c.gapAt 0 then some (token, c) else none

def scanVersionNumber? (c : Cursor) : Option (Nat × Cursor) := do
  let digits := c.run Text.isDigit
  if digits.length ≤ 9 then
    let n ← Text.natOfDigits? 10 digits
    some (n, c.skip digits.length)
  else none

def scanVersion? (c : Cursor) : Option (Token × Cursor) := do
  let (major, c) ← scanVersionNumber? c.skipBlanks
  if c.sees '.' then
    let (minor, c) ← scanVersionNumber? (c.skip 1)
    some (.version major minor, c)
  else none

def scanTagHandle? (c : Cursor) : Option (Token × Cursor) := do
  let (handle, c) ← scanHandle? c.skipBlanks
  if (handle = ['!'] || isHandle handle) && c.rest.head?.any isSpaceOrTab then
    let (front, c) ← scanTagText? true [] c.skipBlanks
    if c.gapAt 0 then some (.tagHandle (String.ofList handle) front, c) else none
  else none

/-- A directive after its percent sign, with the rest of its line. -/
def scanDirective? (c : Cursor) : Option (Token × Cursor) := do
  let name := c.run isWordChar
  let c := c.skip name.length
  if name = [] || !c.gapAt 0 then none
  else
    let (token, c) ←
      if name = "YAML".toList then scanVersion? c
      else if name = "TAG".toList then scanTagHandle? c
      else none
    let c ← c.skipLineRest?
    some (token, c)

end Keyring.Yaml

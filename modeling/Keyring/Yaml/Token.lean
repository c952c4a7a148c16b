/-!
# Tokens of YAML

The row of tokens that a text consists of. Blocks that the indentation opens
and closes have tokens of their own.
-/

namespace Keyring.Yaml

inductive Style where
  | plain
  | singleQuoted
  | doubleQuoted
  | literal
  | folded
deriving DecidableEq, Repr

/-- A tag as bytes; they need not be a text. -/
abbrev Tag := List UInt8

inductive Token where
  | version (major minor : Nat)
  /-- A handle and the text that it stands for. -/
  | tagHandle (handle : String) (front : Tag)
  | documentStart
  | documentEnd
  | blockSequenceStart
  | blockMappingStart
  | blockEnd
  | flowSequenceStart
  | flowSequenceEnd
  | flowMappingStart
  | flowMappingEnd
  | blockEntry
  | flowEntry
  | key
  | value
  | reference (name : String)
  | anchor (name : String)
  | tag (handle : String) (suffix : Tag)
  | scalar (style : Style) (text : String)
deriving DecidableEq, Repr

end Keyring.Yaml

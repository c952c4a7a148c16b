import Keyring.Script.Word

/-!
# Patterns

A star stands for any characters, a question mark for one, and characters in
square brackets for one of them. What is quoted stands for itself.
-/

namespace Keyring.Script

inductive Sign where
  | many
  | one
  /-- One of some ranges, or with `except` one of no range. -/
  | oneOf (except : Bool) (ranges : List (Char × Char))
  | just (c : Char)
deriving DecidableEq, Repr

abbrev Pattern := List Sign

namespace Sign

/-- Whether it stands for a single character. -/
def holds : Sign → Char → Bool
  | many, _ => false
  | one, _ => true
  | oneOf except ranges, c => ranges.any (fun (low, high) => low ≤ c && c ≤ high) != except
  | just d, c => c = d

end Sign

/-- The ranges between square brackets. -/
def rangesOf : Bytes → List (Char × Char)
  | low :: '-' :: high :: rest => (low, high) :: rangesOf rest
  | c :: rest => (c, c) :: rangesOf rest
  | [] => []

/-- A set of characters after its opening bracket. A closing bracket right there is one of them. -/
def set? (s : Bytes) : Option (Sign × Bytes) :=
  let except := s.head? = some '!'
  let s := if except then s.drop 1 else s
  let inner := s.take 1 ++ (s.drop 1).takeWhile (· ≠ ']')
  if inner.length < s.length then some (.oneOf except (rangesOf inner), s.drop (inner.length + 1))
  else none

namespace Pattern

/-- The signs of a text that is not quoted. -/
def ofBare : Nat → Bytes → Pattern
  | 0, _ | _, [] => []
  | fuel + 1, c :: rest =>
    if c = '*' then .many :: ofBare fuel rest
    else if c = '?' then .one :: ofBare fuel rest
    else if c = '[' then
      match set? rest with
      | some (sign, rest) => sign :: ofBare fuel rest
      | none => .just c :: ofBare fuel rest
    else .just c :: ofBare fuel rest

/-- Parts side by side that are both quoted, or both not, taken together. -/
def joined : List (Bool × Bytes) → List (Bool × Bytes)
  | [] => []
  | (quoted, s) :: rest =>
    match joined rest with
    | (next, t) :: more =>
      if quoted = next then (quoted, s ++ t) :: more else (quoted, s) :: (next, t) :: more
    | [] => [(quoted, s)]

/-- The pattern of some parts, each with whether it is quoted. -/
def ofParts (parts : List (Bool × Bytes)) : Pattern :=
  (joined parts).flatMap fun (quoted, s) => if quoted then s.map .just else ofBare s.length s

/-- Whether something holds for a text or for what remains of it after some characters. -/
def anyRemainder (holds : Bytes → Bool) : Bytes → Bool
  | [] => holds []
  | c :: rest => holds (c :: rest) || anyRemainder holds rest

/-- Whether a whole text is one that a pattern stands for. -/
def fits : Pattern → Bytes → Bool
  | [], s => s.isEmpty
  | .many :: rest, s => anyRemainder (fits rest) s
  | sign :: rest, s =>
    match s with
    | [] => false
    | c :: s => sign.holds c && fits rest s

end Pattern

end Keyring.Script

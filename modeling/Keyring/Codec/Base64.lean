import Keyring.Text.Numeral

/-!
# Base64

The standard alphabet with padding. Decoding accepts exactly what encoding
writes: a full last group and no stray bits.
-/

namespace Keyring.Codec.Base64

/-- The symbol of a six-bit value. -/
def symbol (v : Nat) : Char :=
  if v < 26 then Char.ofNat (65 + v)
  else if v < 52 then Char.ofNat (97 + (v - 26))
  else if v < 62 then Char.ofNat (48 + (v - 52))
  else if v = 62 then '+' else '/'

/-- The six-bit value of a byte of the alphabet. -/
def value? (b : UInt8) : Option Nat :=
  let n := b.toNat
  if 65 ≤ n ∧ n ≤ 90 then some (n - 65)
  else if 97 ≤ n ∧ n ≤ 122 then some (n - 97 + 26)
  else if 48 ≤ n ∧ n ≤ 57 then some (n - 48 + 52)
  else if n = 43 then some 62
  else if n = 47 then some 63
  else none

theorem value?_symbol : ∀ v < 64, value? (UInt8.ofNat (symbol v).toNat) = some v := by decide

/-- The byte that fills a last group. -/
def pad : UInt8 := 61

/-- Three bytes in four symbols; fewer bytes leave the last symbols as padding. -/
def encode : List UInt8 → List Char
  | a :: b :: c :: rest =>
    let v := a.toNat * 65536 + b.toNat * 256 + c.toNat
    symbol (v / 262144) :: symbol (v / 4096 % 64) :: symbol (v / 64 % 64) :: symbol (v % 64)
      :: encode rest
  | [a, b] =>
    let v := a.toNat * 65536 + b.toNat * 256
    [symbol (v / 262144), symbol (v / 4096 % 64), symbol (v / 64 % 64), '=']
  | [a] => [symbol (a.toNat / 4), symbol (a.toNat % 4 * 16), '=', '=']
  | [] => []

def encodeUnpadded (bytes : List UInt8) : List Char := (encode bytes).filter (· ≠ '=')

/-- Why a text is no base64, with byte offsets. -/
inductive Fault where
  | invalidSymbol (offset : Nat) (byte : UInt8)
  | invalidLength (length : Nat)
  | invalidLastSymbol (offset : Nat) (byte : UInt8)
  | invalidPadding
deriving DecidableEq, Repr

def Fault.message : Fault → String
  | .invalidSymbol offset byte => s!"Invalid symbol {byte.toNat}, offset {offset}."
  | .invalidLength length => s!"Invalid input length: {length}"
  | .invalidLastSymbol offset byte => s!"Invalid last symbol {byte.toNat}, offset {offset}."
  | .invalidPadding => "Invalid padding"

/-- The values of bytes that must all be symbols, `offset` being that of the first. -/
def values (offset : Nat) : List UInt8 → Except Fault (List Nat)
  | [] => .ok []
  | b :: rest =>
    match value? b with
    | none => .error (.invalidSymbol offset b)
    | some v => (values (offset + 1) rest).map (v :: ·)

/-- Bytes from groups of four values. -/
def joinGroups : List Nat → List UInt8
  | a :: b :: c :: d :: rest =>
    let v := a * 262144 + b * 4096 + c * 64 + d
    UInt8.ofNat (v / 65536) :: UInt8.ofNat (v / 256 % 256) :: UInt8.ofNat (v % 256)
      :: joinGroups rest
  | _ => []

/-- The first byte of a last group at fault: padding among the first two bytes, a symbol after
padding (the padding is named), or no symbol. -/
def groupFault? (offset : Nat) (group : List UInt8) : Option Fault :=
  let firstPad := group.findIdx (· == pad)
  let rec scan (i : Nat) : List UInt8 → Option Fault
    | [] => none
    | b :: rest =>
      if b == pad then
        if i < 2 then some (.invalidSymbol (offset + i) b) else scan (i + 1) rest
      else if firstPad < i then some (.invalidSymbol (offset + firstPad) pad)
      else if (value? b).isNone then some (.invalidSymbol (offset + i) b)
      else scan (i + 1) rest
  scan 0 group

/-- The bytes of the last group, which starts at `offset`. -/
def decodeLast (offset : Nat) (group : List UInt8) : Except Fault (List UInt8) :=
  match groupFault? offset group with
  | some fault => .error fault
  | none =>
    let symbols := group.filter (· ≠ pad)
    let last := offset + symbols.length - 1
    match symbols.filterMap value?, symbols.getLast? with
    | [], _ => if offset + group.length = 0 then .ok [] else .error (.invalidLength offset)
    | [_], _ => .error (.invalidLength (offset + 1))
    | [a, b], byte =>
      if group.length ≠ 4 then .error .invalidPadding
      else if b % 16 ≠ 0 then .error (.invalidLastSymbol last (byte.getD pad))
      else .ok [UInt8.ofNat (a * 4 + b / 16)]
    | [a, b, c], byte =>
      if group.length ≠ 4 then .error .invalidPadding
      else if c % 4 ≠ 0 then .error (.invalidLastSymbol last (byte.getD pad))
      else .ok [UInt8.ofNat (a * 4 + b / 16), UInt8.ofNat (b % 16 * 16 + c / 4)]
    | vs, _ => .ok (joinGroups vs)

/-- How many bytes stand before the last group of one to four. -/
def fullGroupsLength (length : Nat) : Nat := (length - 1) / 4 * 4

/-- A lone byte after full groups is named first when it is neither symbol nor padding. -/
def trailingFault? (bytes : List UInt8) : Option Fault :=
  match bytes.getLast? with
  | some b =>
    if bytes.length % 4 = 1 ∧ b ≠ pad ∧ (value? b).isNone then
      some (.invalidSymbol (bytes.length - 1) b)
    else none
  | none => none

/-- The bytes that a text of base64 stands for. -/
def decode (bytes : List UInt8) : Except Fault (List UInt8) :=
  match trailingFault? bytes with
  | some fault => .error fault
  | none => do
    let full := fullGroupsLength bytes.length
    let vs ← values 0 (bytes.take full)
    let tail ← decodeLast full (bytes.drop full)
    return joinGroups vs ++ tail

end Keyring.Codec.Base64

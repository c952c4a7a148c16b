/-!
# Length-prefixed strings

Key data is a row of byte strings, each after its length in four big-endian
bytes. A number is such a string; its size is that of its leading bit.
-/

namespace Keyring.Codec.Wire

/-- Four bytes, the highest first. -/
def lengthBytes (n : Nat) : List UInt8 :=
  [n / 16777216, n / 65536, n / 256, n].map fun x => UInt8.ofNat (x % 256)

def encode (s : List UInt8) : List UInt8 := lengthBytes s.length ++ s

/-- The first string and what follows it; `none` where length or string is cut short. -/
def next? : List UInt8 → Option (List UInt8 × List UInt8)
  | a :: b :: c :: d :: rest =>
    let n := a.toNat * 16777216 + b.toNat * 65536 + c.toNat * 256 + d.toNat
    if rest.length < n then none else some (rest.take n, rest.drop n)
  | _ => none

/-- The number of binary digits of a byte. -/
def byteBits (b : UInt8) : Nat := if b = 0 then 0 else Nat.log2 b.toNat + 1

/-- The number of binary digits of a big-endian number. -/
def bitLength (bytes : List UInt8) : Nat :=
  match bytes.dropWhile (· == 0) with
  | [] => 0
  | b :: rest => byteBits b + 8 * rest.length

end Keyring.Codec.Wire

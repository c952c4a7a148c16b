/-!
# UTF-8

Texts as bytes. Bytes that are no text are shown with U+FFFD for each maximal
front of a character that is not completed.
-/

namespace Keyring.Text

def utf8Bytes (s : String) : List UInt8 := s.toList.flatMap String.utf8EncodeChar

def utf8Length (s : String) : Nat := (utf8Bytes s).length

/-- The number of bytes of some characters. -/
def byteCount : List Char → Nat
  | [] => 0
  | c :: rest => c.utf8Size + byteCount rest

/-- Characters cut at a byte; there is none to cut at within a character and past the end. -/
def cutAtByte? : List Char → Nat → Option (List Char × List Char)
  | cs, 0 => some ([], cs)
  | [], _ + 1 => none
  | c :: rest, n + 1 =>
    if c.utf8Size ≤ n + 1 then
      (cutAtByte? rest (n + 1 - c.utf8Size)).map fun (front, back) => (c :: front, back)
    else none

/-- A byte that continues a character. -/
def isContinuation (b : UInt8) : Bool := 0x80 ≤ b && b ≤ 0xBF

/-- The second byte that a first byte allows. -/
def allowsSecond (first second : UInt8) : Bool :=
  if first == 0xE0 then 0xA0 ≤ second && second ≤ 0xBF
  else if first == 0xED then 0x80 ≤ second && second ≤ 0x9F
  else if first == 0xF0 then 0x90 ≤ second && second ≤ 0xBF
  else if first == 0xF4 then 0x80 ≤ second && second ≤ 0x8F
  else isContinuation second

/-- How many bytes a character takes that starts with this byte. -/
def sequenceLength (first : UInt8) : Nat :=
  if first < 0x80 then 1
  else if first < 0xC2 then 0
  else if first < 0xE0 then 2
  else if first < 0xF0 then 3
  else if first < 0xF5 then 4
  else 0

def lowBits (b : UInt8) : Nat := b.toNat % 64

/-- The character at the start of the bytes, `none` where they hold none, and
how many bytes after the first belong to it. -/
def charAt (first : UInt8) (rest : List UInt8) : Option Char × Nat :=
  match sequenceLength first, rest with
  | 1, _ => (some (Char.ofNat first.toNat), 0)
  | 2, b :: _ =>
    if allowsSecond first b then (some (Char.ofNat (first.toNat % 32 * 64 + lowBits b)), 1) else (none, 0)
  | 3, b :: more =>
    if allowsSecond first b then
      match more with
      | c :: _ =>
        if isContinuation c then
          (some (Char.ofNat (first.toNat % 16 * 4096 + lowBits b * 64 + lowBits c)), 2)
        else (none, 1)
      | [] => (none, 1)
    else (none, 0)
  | 4, b :: more =>
    if allowsSecond first b then
      match more with
      | c :: more =>
        if isContinuation c then
          match more with
          | d :: _ =>
            if isContinuation d then
              (some (Char.ofNat
                (first.toNat % 8 * 262144 + lowBits b * 4096 + lowBits c * 64 + lowBits d)), 3)
            else (none, 2)
          | [] => (none, 2)
        else (none, 1)
      | [] => (none, 1)
    else (none, 0)
  | _, _ => (none, 0)

/-- The characters of a byte sequence, `none` for what is no character. -/
def decodeUnits : List UInt8 → List (Option Char)
  | [] => []
  | b :: rest => (charAt b rest).1 :: decodeUnits (rest.drop (charAt b rest).2)
termination_by bytes => bytes.length
decreasing_by simp only [List.length_drop, List.length_cons]; omega

def textOfUtf8? (bytes : List UInt8) : Option String :=
  ((decodeUnits bytes).mapM id).map String.ofList

/-- The text that bytes show, U+FFFD standing for what is no character. -/
def textOfUtf8Lossy (bytes : List UInt8) : String :=
  String.ofList ((decodeUnits bytes).map (·.getD (Char.ofNat 0xFFFD)))

end Keyring.Text

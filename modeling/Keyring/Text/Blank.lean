/-!
# Blanks and words

A blank is a character of the Unicode property White_Space. A text is trimmed
of blanks at both ends, cut at its first blank, or read as its words.
-/

namespace Keyring.Text

/-- The twenty-five characters of the Unicode property White_Space. -/
def isBlank (c : Char) : Bool :=
  let n := c.toNat
  (9 ≤ n && n ≤ 13) || n == 0x20 || n == 0x85 || n == 0xA0 || n == 0x1680 ||
    (0x2000 ≤ n && n ≤ 0x200A) || n == 0x2028 || n == 0x2029 || n == 0x202F ||
    n == 0x205F || n == 0x3000

def trimLeft (cs : List Char) : List Char := cs.dropWhile isBlank

def trimRight (cs : List Char) : List Char := (cs.reverse.dropWhile isBlank).reverse

/-- A text without the blanks at its two ends. -/
def trim (cs : List Char) : List Char := trimRight (trimLeft cs)

def trimmed (s : String) : String := String.ofList (trim s.toList)

def isAllBlank (s : String) : Bool := s.toList.all isBlank

/-- The pieces between separators; there is one more piece than separators. -/
def pieces (sep : Char → Bool) : List Char → List (List Char)
  | [] => [[]]
  | c :: rest =>
    if sep c then [] :: pieces sep rest
    else match pieces sep rest with
      | [] => [[c]]
      | piece :: more => (c :: piece) :: more

/-- The maximal runs without a blank. -/
def words (cs : List Char) : List (List Char) := (pieces isBlank cs).filter (· ≠ [])

/-- What stands before the first separator and what stands after it. -/
def cut (sep : Char → Bool) : List Char → Option (List Char × List Char)
  | [] => none
  | c :: rest =>
    if sep c then some ([], rest)
    else (cut sep rest).map fun (before, after) => (c :: before, after)

end Keyring.Text

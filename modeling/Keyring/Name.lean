import Keyring.Error
import Keyring.Text.Utf8

/-!
# Names

Keys and hosts are named alike, so that a name is a safe file name and a safe
pattern of an ssh configuration.
-/

namespace Keyring.Name

/-- A small letter or a digit. -/
def isAlphanumeric (c : Char) : Bool := ('a' ≤ c && c ≤ 'z') || ('0' ≤ c && c ≤ '9')

def isNameChar (c : Char) : Bool := isAlphanumeric c || c = '-' || c = '_' || c = '.'

def maxLength : Nat := 64

/-- A name starts and ends with a small letter or digit. -/
def isName (name : String) : Bool :=
  Text.utf8Length name ≤ maxLength && name.toList.all isNameChar &&
    name.toList.head?.any isAlphanumeric && name.toList.getLast?.any isAlphanumeric

/-- Nothing for a name, the error to report for another text. -/
def check (name : String) : Except Error Unit :=
  if isName name then .ok () else .error (.invalidName name)

end Keyring.Name

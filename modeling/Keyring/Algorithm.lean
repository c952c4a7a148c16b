import Keyring.Document.Format
import Keyring.Error
import Keyring.Text.Numeral

/-!
# Key algorithms

The four algorithms, the names they go by, and the sizes in which a new key is made.
-/

namespace Keyring

inductive Algorithm where
  | ed25519
  | ecdsa
  | rsa
  | dsa
deriving DecidableEq, Repr, Inhabited

namespace Algorithm

def name : Algorithm → String
  | ed25519 => "ed25519"
  | ecdsa => "ecdsa"
  | rsa => "rsa"
  | dsa => "dsa"

def ofName? : String → Option Algorithm
  | "ed25519" => some ed25519
  | "ecdsa" => some ecdsa
  | "rsa" => some rsa
  | "dsa" => some dsa
  | _ => none

theorem ofName?_name (a : Algorithm) : ofName? a.name = some a := by cases a <;> rfl

/-- What the type of every elliptic-curve key starts with. -/
def curveTypeFront : String := "ecdsa-sha2-"

/-- The algorithm of a key type as it stands in a public key line. -/
def ofKeyType? (keyType : String) : Option Algorithm :=
  if keyType = "ssh-ed25519" then some ed25519
  else if keyType = "ssh-rsa" then some rsa
  else if keyType = "ssh-dss" then some dsa
  else if curveTypeFront.toList.isPrefixOf keyType.toList then some ecdsa
  else none

/-- The algorithm that a user names, by its short name or by a key type. -/
def ofText (s : String) : Except Error Algorithm :=
  match ofName? s with
  | some a => .ok a
  | none => match ofKeyType? s with
    | some a => .ok a
    | none => .error (.unknownAlgorithm s)

def data (a : Algorithm) : Data := .text a.name

def read? {α : Type} [Format α] (a : α) : Reading Algorithm := Format.oneOf ofName? a

/-- The bits asked for where the user does not choose. -/
def defaultBits : Algorithm → Option Nat
  | rsa => some 4096
  | ecdsa => some 256
  | ed25519 => none
  | dsa => none

/-- No smaller RSA key is made, and existing ones are a critical finding. -/
def rsaFloorBits : Nat := 2048

/-- The sizes of elliptic-curve keys. -/
def curveBits : List Nat := [256, 384, 521]

/-- The bits to ask for when a key is made; `none` where the algorithm has one size only. -/
def chosenBits (algorithm : Algorithm) (wanted : Option Nat) : Except Error (Option Nat) :=
  match algorithm with
  | dsa => .error (.weakAlgorithm "dsa keys are disabled by modern OpenSSH")
  | rsa =>
    let bits := (wanted.or (defaultBits rsa)).getD 4096
    if bits < rsaFloorBits then
      .error (.weakAlgorithm s!"rsa-{bits} is below the {rsaFloorBits}-bit minimum")
    else .ok (some bits)
  | ecdsa =>
    match wanted.or (defaultBits ecdsa) with
    | some bits =>
      if bits ∈ curveBits then .ok (some bits)
      else .error (.invalidKeySize s!"ecdsa supports 256, 384 or 521 bits, got {bits}")
    | none => .ok (some 256)
  | ed25519 => .ok none

end Algorithm

end Keyring

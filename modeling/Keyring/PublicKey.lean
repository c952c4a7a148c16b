import Keyring.Algorithm
import Keyring.Codec.Base64
import Keyring.Codec.Sha256
import Keyring.Codec.Wire
import Keyring.Text.Blank
import Keyring.Text.Utf8

/-!
# Public keys

A public key is a line `<type> <base64> [comment]`. Its fingerprint and its
size are read from the key data alone.
-/

namespace Keyring

open Codec

structure PublicKey where
  keyType : String
  algorithm : Algorithm
  blob : List UInt8
  comment : String
deriving DecidableEq, Repr

namespace PublicKey

/-- The first string of key data and what follows it. -/
def nextString (bytes : List UInt8) : Except Error (List UInt8 × List UInt8) :=
  match Wire.next? bytes with
  | some r => .ok r
  | none => .error (.invalidPublicKey "truncated key data")

/-- The fields of a line: what stands before the first blank, before the second, and the rest. -/
def fieldsOf (line : List Char) : List Char × Option (List Char) × List Char :=
  match Text.cut Text.isBlank line with
  | none => (line, none, [])
  | some (first, rest) =>
    match Text.cut Text.isBlank rest with
    | none => (first, some rest, [])
    | some (second, rest) => (first, some second, rest)

/-- Key data must start with the type that the line declares. -/
def ofText (text : String) : Except Error PublicKey := do
  let (keyType, encoded, comment) := fieldsOf (Text.trim text.toList)
  if keyType = [] then throw (.invalidPublicKey "empty key")
  let encoded := Text.trim (encoded.getD [])
  if encoded = [] then throw (.invalidPublicKey "missing base64 field")
  let keyType := String.ofList keyType
  let algorithm ← match Algorithm.ofKeyType? keyType with
    | some a => pure a
    | none => throw (.invalidPublicKey s!"unsupported key type '{keyType}'")
  let blob ← match Base64.decode (Text.utf8Bytes (String.ofList encoded)) with
    | .ok bytes => pure bytes
    | .error fault => throw (.invalidPublicKey s!"bad base64: {fault.message}")
  let (embedded, _) ← nextString blob
  if embedded ≠ Text.utf8Bytes keyType then
    throw (.invalidPublicKey s!"declared type '{keyType}' does not match key data")
  return { keyType, algorithm, blob, comment := String.ofList (Text.trim comment) }

def encoded (k : PublicKey) : String := String.ofList (Base64.encode k.blob)

/-- The key as one line, with its comment where it has one. -/
def line (k : PublicKey) : String :=
  if k.comment.isEmpty then k.keyType ++ " " ++ k.encoded
  else k.keyType ++ " " ++ k.encoded ++ " " ++ k.comment

/-- The hash of the key data, by which keys are told apart. -/
def fingerprint (k : PublicKey) : String :=
  "SHA256:" ++ String.ofList (Base64.encodeUnpadded (Sha256.digest k.blob))

/-- The size of an elliptic-curve key by the name of its curve. -/
def curveSize? (curve : List UInt8) : Option Nat :=
  if curve = Text.utf8Bytes "nistp256" then some 256
  else if curve = Text.utf8Bytes "nistp384" then some 384
  else if curve = Text.utf8Bytes "nistp521" then some 521
  else none

def bits (k : PublicKey) : Except Error Nat := do
  let (_, rest) ← nextString k.blob
  match k.algorithm with
  | .ed25519 => return 256
  | .ecdsa =>
    let (curve, _) ← nextString rest
    match curveSize? curve with
    | some n => return n
    | none => throw (.invalidPublicKey s!"unknown curve '{Text.textOfUtf8Lossy curve}'")
  | .rsa =>
    let (_, rest) ← nextString rest
    let (modulus, _) ← nextString rest
    return Wire.bitLength modulus
  | .dsa =>
    let (modulus, _) ← nextString rest
    return Wire.bitLength modulus

end PublicKey

end Keyring

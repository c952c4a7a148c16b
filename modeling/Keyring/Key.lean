import Keyring.Algorithm
import Keyring.Document.Moment
import Keyring.Expiry
import Keyring.Path

/-!
# Keys

What is on record about a key pair: its public half, its files, its age and
what became of it.
-/

namespace Keyring

open Time

inductive KeyStatus where
  | active
  | rotated
  | revoked
deriving DecidableEq, Repr, Inhabited

namespace KeyStatus

def name : KeyStatus → String
  | active => "active"
  | rotated => "rotated"
  | revoked => "revoked"

def ofName? : String → Option KeyStatus
  | "active" => some active
  | "rotated" => some rotated
  | "revoked" => some revoked
  | _ => none

theorem ofName?_name (s : KeyStatus) : ofName? s.name = some s := by cases s <;> rfl

def data (s : KeyStatus) : Data := .text s.name

def read? {α : Type} [Format α] (a : α) : Reading KeyStatus := Format.oneOf ofName? a

end KeyStatus

structure Key where
  name : String
  algorithm : Algorithm
  bits : Option Nat
  comment : String
  fingerprint : String
  privateFile : Path
  publicFile : Path
  /-- The public half as one line. -/
  publicLine : String
  createdAt : Instant
  expiresAt : Option Instant
  status : KeyStatus
  rotatedFrom : Option String
  rotatedTo : Option String
  /-- Its files were made for the vault and may be deleted with the record. -/
  managed : Bool
  tags : List String
deriving DecidableEq, Repr

namespace Key

def isActive (k : Key) : Bool := k.status = .active

def expiry (k : Key) (now : Instant) (warnDays : Nat) : Expiry := .at_ k.expiresAt now warnDays

/-- The days for which the key was made, if it was made for a number of days. -/
def lifetimeDays? (k : Key) : Option Int :=
  (k.expiresAt.map fun last => Instant.wholeDays (last.since k.createdAt)).filter (0 < ·)

def ageDays (k : Key) (now : Instant) : Int := Instant.wholeDays (now.since k.createdAt)

/-- The second word of the public line, which holds the key itself. -/
def blob (k : Key) : String :=
  match Text.words k.publicLine.toList with
  | _ :: word :: _ => String.ofList word
  | _ => k.publicLine

def data (k : Key) : Data :=
  .record (
    [("name", .text k.name), ("algorithm", k.algorithm.data)]
    ++ Data.optionalField "bits" k.bits Data.ofNat
    ++ [("comment", .text k.comment), ("fingerprint", .text k.fingerprint),
      ("private_key_path", .text k.privateFile), ("public_key_path", .text k.publicFile),
      ("public_key", .text k.publicLine), ("created_at", Data.ofInstant k.createdAt)]
    ++ Data.optionalField "expires_at" k.expiresAt Data.ofInstant
    ++ [("status", k.status.data)]
    ++ Data.optionalField "rotated_from" k.rotatedFrom .text
    ++ Data.optionalField "rotated_to" k.rotatedTo .text
    ++ [("managed", .flag k.managed)]
    ++ Data.nonemptyField "tags" (k.tags.map .text))

def fieldNames : List String :=
  ["name", "algorithm", "bits", "comment", "fingerprint", "private_key_path", "public_key_path",
    "public_key", "created_at", "expires_at", "status", "rotated_from", "rotated_to", "managed",
    "tags"]

open Format in
def read? {α : Type} [Format α] (a : α) : Reading Key := do
  let fields ← record? fieldNames a
  return {
    name := ← required fields "name" text?
    algorithm := ← required fields "algorithm" Algorithm.read?
    bits := ← optionalField fields "bits" (wholeBelow (Nat.pow 2 32))
    comment := ← withDefault fields "comment" "" text?
    fingerprint := ← required fields "fingerprint" text?
    privateFile := ← required fields "private_key_path" text?
    publicFile := ← required fields "public_key_path" text?
    publicLine := ← required fields "public_key" text?
    createdAt := ← required fields "created_at" instant?
    expiresAt := ← optionalField fields "expires_at" instant?
    status := ← withDefault fields "status" .active KeyStatus.read?
    rotatedFrom := ← optionalField fields "rotated_from" text?
    rotatedTo := ← optionalField fields "rotated_to" text?
    managed := ← withDefault fields "managed" false flag?
    tags := ← withDefault fields "tags" [] texts }

end Key

end Keyring

import Keyring.Document.Moment

/-!
# Hosts

Machines that keys are deployed to, and how the last connection to them went.
-/

namespace Keyring

open Time

structure Host where
  /-- The alias that it is called by. -/
  label : String
  hostname : String
  user : String
  port : Nat
  /-- The name of the key to log in with. -/
  identity : Option String
  tags : List String
  addedAt : Instant
  lastChecked : Option Instant
  lastCheckOk : Option Bool
  lastCheckError : Option String
deriving DecidableEq, Repr

namespace Host

def defaultPort : Nat := 22

/-- The user and the machine as a login names them. -/
def target (h : Host) : String := h.user ++ "@" ++ h.hostname

def data (h : Host) : Data :=
  .record (
    [("alias", .text h.label), ("hostname", .text h.hostname), ("user", .text h.user),
      ("port", Data.ofNat h.port)]
    ++ Data.optionalField "identity" h.identity .text
    ++ Data.nonemptyField "tags" (h.tags.map .text)
    ++ [("added_at", Data.ofInstant h.addedAt)]
    ++ Data.optionalField "last_checked" h.lastChecked Data.ofInstant
    ++ Data.optionalField "last_check_ok" h.lastCheckOk .flag
    ++ Data.optionalField "last_check_error" h.lastCheckError .text)

def fieldNames : List String :=
  ["alias", "hostname", "user", "port", "identity", "tags", "added_at", "last_checked",
    "last_check_ok", "last_check_error"]

open Format in
def read? {α : Type} [Format α] (a : α) : Reading Host := do
  let fields ← record? fieldNames a
  return {
    label := ← required fields "alias" text?
    hostname := ← required fields "hostname" text?
    user := ← required fields "user" text?
    port := ← withDefault fields "port" defaultPort (wholeBelow (Nat.pow 2 16))
    identity := ← optionalField fields "identity" text?
    tags := ← withDefault fields "tags" [] texts
    addedAt := ← required fields "added_at" instant?
    lastChecked := ← optionalField fields "last_checked" instant?
    lastCheckOk := ← optionalField fields "last_check_ok" flag?
    lastCheckError := ← optionalField fields "last_check_error" text? }

end Host

end Keyring

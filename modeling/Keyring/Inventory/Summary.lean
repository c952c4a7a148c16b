import Keyring.Inventory.Basic

/-!
# Counts

How many keys are in each state, and how many hosts did not answer.
-/

namespace Keyring

open Time

structure InventorySummary where
  keysActive : Nat
  keysRotated : Nat
  keysRevoked : Nat
  keysExpiring : Nat
  keysExpired : Nat
  hosts : Nat
  hostsUnreachable : Nat
  deployments : Nat
deriving DecidableEq, Repr

namespace Inventory

def activeKeys (inv : Inventory) : List Key := inv.keys.filter (·.isActive)

/-- The active keys that are about to expire. -/
def expiringKeys (inv : Inventory) (now : Instant) (warnDays : Nat) : List Key :=
  inv.activeKeys.filter fun k => match k.expiry now warnDays with
    | .expiring _ => true
    | _ => false

/-- The active keys that have expired. -/
def expiredKeys (inv : Inventory) (now : Instant) (warnDays : Nat) : List Key :=
  inv.activeKeys.filter fun k => (k.expiry now warnDays).isExpired

def summary (inv : Inventory) (now : Instant) (warnDays : Nat) : InventorySummary where
  keysActive := inv.activeKeys.length
  keysRotated := inv.keys.countP (·.status = .rotated)
  keysRevoked := inv.keys.countP (·.status = .revoked)
  keysExpiring := (inv.expiringKeys now warnDays).length
  keysExpired := (inv.expiredKeys now warnDays).length
  hosts := inv.hosts.length
  hostsUnreachable := inv.hosts.countP (·.lastCheckOk = some false)
  deployments := inv.deployments.length

end Inventory

def InventorySummary.data (s : InventorySummary) : Data :=
  .record [("keys_active", Data.ofNat s.keysActive), ("keys_rotated", Data.ofNat s.keysRotated),
    ("keys_revoked", Data.ofNat s.keysRevoked), ("keys_expiring", Data.ofNat s.keysExpiring),
    ("keys_expired", Data.ofNat s.keysExpired), ("hosts", Data.ofNat s.hosts),
    ("hosts_unreachable", Data.ofNat s.hostsUnreachable),
    ("deployments", Data.ofNat s.deployments)]

end Keyring

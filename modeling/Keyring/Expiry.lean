import Keyring.Document.Data
import Keyring.Time.Instant

/-!
# Expiry

Where a key stands between its creation and the instant at which it expires.
-/

namespace Keyring

open Time

inductive Expiry where
  | never
  | valid (daysLeft : Int)
  | expiring (daysLeft : Int)
  | expired (daysAgo : Int)
deriving DecidableEq, Repr

namespace Expiry

/-- At its last instant a key has expired; it is about to while less than the warning days are
left. -/
def at_ (expiresAt : Option Instant) (now : Instant) (warnDays : Nat) : Expiry :=
  match expiresAt with
  | none => never
  | some last =>
    if last ≤ now then expired (Instant.wholeDays (now.since last))
    else if last.since now < warnDays * Instant.nanosPerDay then
      expiring (Instant.wholeDays (last.since now))
    else valid (Instant.wholeDays (last.since now))

def isExpired : Expiry → Bool
  | expired _ => true
  | _ => false

def text : Expiry → String
  | never => "never"
  | valid days => s!"{days}d"
  | expiring days => s!"{days}d (soon)"
  | expired days => s!"expired {days}d ago"

def data : Expiry → Data
  | never => .record [("state", .text "never")]
  | valid days => .record [("state", .text "valid"), ("days_left", .number days)]
  | expiring days => .record [("state", .text "expiring"), ("days_left", .number days)]
  | expired days => .record [("state", .text "expired"), ("days_ago", .number days)]

end Expiry

end Keyring

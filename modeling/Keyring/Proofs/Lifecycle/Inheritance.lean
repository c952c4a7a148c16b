import Keyring.Proofs.Lifecycle.Safety
import Keyring.Proofs.Time.Span

/-!
# The lifetime that is handed on

A key that is made for a number of days is followed by one for as many days. The days are
counted whole, so from a key for less than one day the follower gets no expiry at all.
-/

namespace Keyring

open Time

/-- A key that expires has a lifetime when at least one whole day lies between its creation and its expiry. -/
theorem Key.lifetimeDays?_of_due {k : Key} {last : Instant} (due : k.expiresAt = some last) :
    k.lifetimeDays? = if 0 < Instant.wholeDays (last.since k.createdAt) then
      some (Instant.wholeDays (last.since k.createdAt)) else none := by
  unfold lifetimeDays?
  rw [due, Option.map_some, Option.filter_some]
  simp only [decide_eq_true_eq]

namespace Lifecycle

variable {vault : Path} {req : Rotation} {now last : Instant} {old : Key} {o : RotationOutcome} {w w' : World}

/-- An instant some days from now is the expiry of a key for that many days. -/
theorem expiryFrom_eq_ok_iff {ttlDays : Option Nat} {due : Option Instant} :
    expiryFrom now ttlDays = .ok due ↔ (ttlDays = none ∧ due = none) ∨
      ∃ days t, ttlDays = some days ∧ now.plusDays? days = some t ∧ due = some t := by
  cases ttlDays with
  | none => simp [expiryFrom, eq_comm]
  | some days => cases moved : now.plusDays? days <;> simp [expiryFrom, moved, eq_comm]

/-- Where no days are asked for, the new key is made for those of the old one, if they fit. -/
theorem ttlDays_successor_of_few (unasked : req.ttlDays = none)
    (few : ∀ days, old.lifetimeDays? = some days → days.toNat < Nat.pow 2 32) (newName : String) :
    (successor old req newName).ttlDays = old.lifetimeDays?.map Int.toNat := by
  unfold successor
  dsimp only
  rw [unasked, Option.none_or]
  cases lasted : old.lifetimeDays? with
  | none => rfl
  | some days => rw [Option.map_some, Option.filter_some, if_pos (by simpa using few days lasted)]

/-- Those are the whole days between the creation of the old key and its expiry. -/
theorem ttlDays_successor (expires : old.expiresAt = some last) (createdAt : old.createdAt.IsKept)
    (expiresAt : last.IsKept) (unasked : req.ttlDays = none) (newName : String) :
    (successor old req newName).ttlDays = if 0 < Instant.wholeDays (last.since old.createdAt) then
      some (Instant.wholeDays (last.since old.createdAt)).toNat else none := by
  have few := Instant.wholeDays_since_lt expiresAt createdAt
  rw [ttlDays_successor_of_few unasked, Key.lifetimeDays?_of_due expires]
  · split <;> rfl
  · intro days lasted
    rw [Key.lifetimeDays?_of_due expires, Option.ite_none_right_eq_some] at lasted
    obtain rfl := Option.some.inj lasted.2
    omega

/-- The new key is on record as it is returned, and expires as was asked for it. -/
theorem rotate_makes (vault : Path) (req : Rotation) (now : Instant) (inv : Inventory) :
    Op.Commits inv (fun o inv' => inv'.findKey? o.new.name = some o.new ∧ ∃ old newName,
      inv.activeKey req.name = .ok old ∧ expiryFrom now (successor old req newName).ttlDays = .ok o.new.expiresAt)
      (rotate vault req now) := by
  refine commits_rotate fun old newName made mid active makes => ⟨?_, old, newName, active, makes.expiresAt⟩
  have named : made.name = newName := makes.enters.name_eq
  subst named
  obtain ⟨apart, oldFound, newFound⟩ := makes.enters.lookups active
  exact (linkRotation_lookups apart oldFound newFound).2

/-- A rotation that no days are asked for, of a key that expires: the new key, on record as it is
returned, expires just where at least one whole day lies between the creation of the old one and its
expiry, and then it expires as many days from now, less a second where now is in a leap second. -/
theorem rotate_hands_on (active : w.inventory.activeKey req.name = .ok old) (expires : old.expiresAt = some last)
    (createdAt : old.createdAt.IsKept) (expiresAt : last.IsKept) (unasked : req.ttlDays = none)
    (run : outcome (rotate vault req now) w = (.ok o, w')) :
    w'.inventory.findKey? o.new.name = some o.new ∧
      (o.new.expiresAt.isSome = true ↔ 0 < Instant.wholeDays (last.since old.createdAt)) ∧
      ∀ due, o.new.expiresAt = some due →
        now.plusDays? (Instant.wholeDays (last.since old.createdAt)).toNat = some due ∧
        due.since now = Instant.wholeDays (last.since old.createdAt) * Instant.nanosPerDay -
          if now.isLeap then (Instant.nanosPerSecond : Int) else 0 := by
  have made := rotate_makes vault req now w.inventory w rfl
  rw [run] at made
  obtain ⟨found, old', newName, active', asked⟩ := made
  obtain rfl : old' = old := Except.ok.inj (active'.symm.trans active)
  refine ⟨found, ?_⟩
  rw [ttlDays_successor expires createdAt expiresAt unasked, expiryFrom_eq_ok_iff] at asked
  by_cases whole : 0 < Instant.wholeDays (last.since old'.createdAt)
  · rw [if_pos whole] at asked
    obtain ⟨⟨⟩, -⟩ | ⟨days, t, daysAre, moved, newExpires⟩ := asked
    obtain rfl := Option.some.inj daysAre
    rw [newExpires]
    refine ⟨by simpa using whole, ?_⟩
    rintro due ⟨⟩
    refine ⟨moved, ?_⟩
    have later := Instant.since_plusDays moved (by omega)
    rwa [Int.toNat_of_nonneg (Int.le_of_lt whole)] at later
  · rw [if_neg whole] at asked
    obtain ⟨-, newExpires⟩ | ⟨_, _, ⟨⟩, _⟩ := asked
    rw [newExpires]
    refine ⟨by simpa using whole, ?_⟩
    rintro due ⟨⟩

/-- A fresh world in which the key `work` has been made for no day at all. -/
def briefWorld : World :=
  (Request.generate ⟨"work", .ed25519, none, none, some 0, none, []⟩ ⟨0, 0⟩).after "vault" Request.freshWorld

/-- The key `work` is to be followed by one like it. -/
def likeRotation : Rotation := ⟨"work", none, none, none, none, none⟩

/-- The key `work` expires there, and the one that follows it never does. -/
theorem rotate_hands_on_of_briefWorld : ∃ old o w',
    briefWorld.inventory.activeKey likeRotation.name = .ok old ∧ old.expiresAt = some ⟨0, 0⟩ ∧
      outcome (rotate "vault" likeRotation ⟨60, 0⟩) briefWorld = (.ok o, w') ∧
      w'.inventory.findKey? o.new.name = some o.new ∧ o.new.expiresAt = none := by
  have facts : (∃ old ∈ briefWorld.inventory.keys,
      briefWorld.inventory.activeKey likeRotation.name = .ok old ∧ old.expiresAt = some ⟨0, 0⟩ ∧
        old.createdAt = ⟨0, 0⟩) ∧
      (outcome (rotate "vault" likeRotation ⟨60, 0⟩) briefWorld).1.isOk = true := by
    decide +kernel
  obtain ⟨⟨old, -, active, expires, createdAt⟩, done⟩ := facts
  rcases run : outcome (rotate "vault" likeRotation ⟨60, 0⟩) briefWorld with ⟨_ | o, w'⟩
  · rw [run] at done
    cases done
  have kept : (Instant.mk 0 0).IsKept := ⟨by decide, by decide⟩
  have created : old.createdAt.IsKept := by rwa [createdAt]
  obtain ⟨found, expiring, -⟩ := rotate_hands_on active expires created kept rfl run
  have never : o.new.expiresAt = none := by
    rw [createdAt] at expiring
    rw [← Option.not_isSome_iff_eq_none, expiring]
    decide
  exact ⟨old, o, w', active, expires, rfl, found, never⟩

end Lifecycle

end Keyring

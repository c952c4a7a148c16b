import Keyring.Proofs.Inventory.Dates
import Keyring.Proofs.Lifecycle.DefaultName

/-!
# Expiry past the last day

An expiry is counted in days, and the days may lead past the last one that is kept; then all stops
(`Error.dateOverflow`), as it does where the file of a key that is taken in is from a time that is not kept.
Nothing else does: where a key can be made for no day at all, it can be made for any number of days up to the
last one (`Request.overflows_iff`).
-/

namespace Keyring

open Time Op

theorem Error.ne_dateOverflow_of_blamesMaterial (e : Error) (material : e.blamesMaterial = true) :
    e ≠ .dateOverflow := by
  rintro rfl
  cases material

theorem Name.refusedOnly_check (name : String) : RefusedOnly (· ≠ .dateOverflow) (check name) := by
  unfold check
  split
  · exact .ok _
  · exact .error nofun

namespace Lifecycle

open Error (ne_dateOverflow_of_blamesMaterial)
open Inventory

variable {vault : Path} {now : Instant} {ttlDays : Option Nat} {w : World}

theorem refusedOnly_checkFree (d : Disk) (path : Path) : RefusedOnly (· ≠ .dateOverflow) (checkFree d path) := by
  unfold checkFree
  split
  · exact .error nofun
  · exact .ok ()

theorem refusedOnly_checkNew (inv : Inventory) (d : Disk) (vault : Path) (req : NewKey) :
    RefusedOnly (· ≠ .dateOverflow) (checkNew inv d vault req) := by
  unfold checkNew
  refine .bind (Name.refusedOnly_check _) fun _ => ?_
  dsimp only
  split
  · exact .thrown nofun
  · have chosen := (req.algorithm.refusedOnly_chosenBits req.bits).mono ne_dateOverflow_of_blamesMaterial
    refine .bind chosen fun bits => .bind (refusedOnly_checkFree _ _) fun _ => ?_
    exact .bind (refusedOnly_checkFree _ _) fun _ => .ok bits

theorem refusedOnly_checkImport (inv : Inventory) (d : Disk) (req : ImportedKey) :
    RefusedOnly (· ≠ .dateOverflow) (checkImport inv d req) := by
  unfold checkImport
  refine .bind (Name.refusedOnly_check _) fun _ => ?_
  dsimp only
  split
  · exact .thrown nofun
  split
  · exact .error nofun
  · exact .ok ()

theorem refusedOnly_checkNewMaterial (inv : Inventory) (pub : PublicKey) :
    RefusedOnly (· ≠ .dateOverflow) (checkNewMaterial inv pub) := by
  unfold checkNewMaterial
  split
  · exact .error nofun
  · exact .ok ()

theorem refusedOnly_key (inv : Inventory) (name : String) : RefusedOnly (· ≠ .dateOverflow) (inv.key name) := by
  unfold Inventory.key
  split
  · exact .ok _
  · exact .error nofun

theorem refusedOnly_activeKey (inv : Inventory) (name : String) :
    RefusedOnly (· ≠ .dateOverflow) (inv.activeKey name) := by
  unfold Inventory.activeKey
  refine .bind (refusedOnly_key _ _) fun k => ?_
  split
  · exact .ok k
  · exact .error nofun

theorem failsOnly_publicLineOf (req : ImportedKey) : FailsOnly (·.blamesOutside) (publicLineOf req) := by
  unfold publicLineOf derivePublicLine
  split
  · exact .pure _
  refine .bind .disk fun d => ?_
  split
  · exact .bind (.onDisk _) fun _ => .pure _
  · refine .bind (.bind (.call _ _ _) fun output => ?_) fun _ => .pure _
    exact .bind (.ofExcept (refusedOnly_demand _ _)) fun _ => .pure _

theorem failsOnly_keepPublicFile (vault : Path) (name : String) (pub : PublicKey) (found : Option Path) :
    FailsOnly (·.blamesOutside) (keepPublicFile vault name pub found) := by
  unfold keepPublicFile
  split
  · exact .pure _
  · exact .bind (.onDisk _) fun _ => .pure _

theorem failsOnly_makePair (vault : Path) (req : NewKey) : FailsOnly (· ≠ .dateOverflow) (makePair vault req) := by
  unfold makePair
  refine .bind .get fun w => .bind (.ofExcept (refusedOnly_checkNew _ _ _ _)) fun bits => ?_
  exact (failsOnly_makeFiles vault req bits).material.mono ne_dateOverflow_of_blamesMaterial

theorem failsOnly_takePair (vault : Path) (req : ImportedKey) :
    FailsOnly (· ≠ .dateOverflow) (takePair vault req) := by
  unfold takePair
  refine .bind .get fun w => .bind (.ofExcept (refusedOnly_checkImport _ _ _)) fun _ => ?_
  refine .bind ((failsOnly_publicLineOf _).material.mono ne_dateOverflow_of_blamesMaterial) fun source => ?_
  refine .bind (.ofExcept ((PublicKey.refusedOnly_ofText _).material.mono ne_dateOverflow_of_blamesMaterial)) fun pub => ?_
  refine .bind (.ask fun inv => refusedOnly_checkNewMaterial inv pub) fun _ => ?_
  refine .bind ((failsOnly_keepPublicFile _ _ _ _).material.mono ne_dateOverflow_of_blamesMaterial) fun publicFile => ?_
  exact .bind .disk fun d => .pure _

/-- The time of a file is no date only where it is from before or after all that are kept. -/
theorem creationTime_eq_error_iff {d : Disk} {file : Path} {e : Error} :
    creationTime d file now = .error e ↔
      e = .dateOverflow ∧ ∃ t, d.modified? file = some t ∧ ¬ (Reading.of t).instant.InRange := by
  unfold creationTime
  cases d.modified? file with
  | none => simp
  | some t =>
    by_cases within : (Reading.of t).instant.InRange
    · simp [dateOfFile, within, bind, Except.bind, pure, Except.pure]
    · simp [dateOfFile, within, bind, Except.bind, eq_comm]

/-- What is made before an expiry is counted does not depend on it: where that does not stop for a date, the days
lead past the last one where with none the key would have come on record. -/
theorem overflows_of_enter {α : Type} {x : Op α} {start : α → Instant} {record : α → Option Instant → Key}
    {name : String} (free : Commits w.inventory (fun _ inv' => inv'.findKey? name = none) x)
    (named : ∀ a due, (record a due).name = name) (dated : ∀ a due, (record a due).createdAt = start a)
    (kept : ∀ a, (outcome x w).1 = .ok a → (start a).dayNumber ≤ Instant.lastDay) :
    (outcome (x >>= fun a => enter (start a) ttlDays (record a)) w).1 = .error .dateOverflow ↔
      (outcome x w).1 = .error .dateOverflow ∨ ∃ days, ttlDays = some days ∧
        ∃ k, (outcome (x >>= fun a => enter (start a) (some 0) (record a)) w).1 = .ok k ∧
          Instant.lastDay < k.createdAt.dayNumber + days := by
  have committed := free w rfl
  rw [outcome_bind, outcome_bind]
  rcases run : outcome x w with ⟨e | a, w'⟩
  · simp
  · rw [run] at committed kept
    have made : (outcome (enter (start a) (some 0) (record a)) w').1 = .ok (record a (some (start a))) := by
      rw [outcome_enter committed (named a), expiryFrom_zero (kept a rfl)]
    dsimp only
    rw [made, outcome_enter committed (named a)]
    cases due : expiryFrom (start a) ttlDays with
    | error e =>
      obtain ⟨rfl, days, asked, past⟩ := expiryFrom_eq_error_iff.mp due
      simp [asked, dated, past]
    | ok t =>
      simpa [dated] using not_past_of_expiryFrom due

/-! ## The four ways to set an expiry -/

theorem exists_ok_iff {ε α : Type} {r : Except ε α} : (∃ a, r = .ok a) ↔ ∀ e, r ≠ .error e := by
  cases r with
  | error e => simp
  | ok a => simp

theorem createdAt_of_generate {req : NewKey} {k : Key} (done : (outcome (generate vault req now) w).1 = .ok k) :
    k.createdAt = now := by
  have made := generate_commits vault req now w.inventory w rfl
  rcases run : outcome (generate vault req now) w with ⟨e | k', w'⟩
  · rw [run] at done
    cases done
  · rw [run] at made done
    cases done
    exact made.createdAt

theorem generate_overflows_iff (req : NewKey) (kept : now.dayNumber ≤ Instant.lastDay) :
    (outcome (generate vault req now) w).1 = .error .dateOverflow ↔
      ∃ days, req.ttlDays = some days ∧ Instant.lastDay < now.dayNumber + days ∧
        ∃ k, (outcome (generate vault { req with ttlDays := some 0 } now) w).1 = .ok k := by
  have counted : (outcome (generate vault req now) w).1 = .error .dateOverflow ↔
      (outcome (makePair vault req) w).1 = .error .dateOverflow ∨ ∃ days, req.ttlDays = some days ∧
        ∃ k, (outcome (generate vault { req with ttlDays := some 0 } now) w).1 = .ok k ∧
          Instant.lastDay < k.createdAt.dayNumber + days := by
    rw [generate_eq, generate_eq]
    exact overflows_of_enter (makePair_commits vault req w.inventory) (fun _ _ => rfl) (fun _ _ => rfl)
      fun _ _ => kept
  rw [counted, or_iff_right fun stops => failsOnly_makePair vault req w _ stops rfl]
  refine exists_congr fun days => and_congr_right fun _ => ?_
  constructor
  · rintro ⟨k, done, past⟩
    rw [createdAt_of_generate done] at past
    exact ⟨past, k, done⟩
  · rintro ⟨past, k, done⟩
    rw [← createdAt_of_generate done] at past
    exact ⟨k, done, past⟩

/-- A pair that is taken in, and when it was made. -/
def datePair (vault : Path) (req : ImportedKey) (now : Instant) : Op (PublicKey × Path × Disk × Instant) := do
  let (pub, publicFile, d) ← takePair vault req
  let createdAt ← Op.ofExcept (creationTime d req.privateFile now)
  return (pub, publicFile, d, createdAt)

theorem importKey_eq_datePair (vault : Path) (req : ImportedKey) (now : Instant) : importKey vault req now =
    datePair vault req now >>= fun found => enter found.2.2.2 req.ttlDays fun expiresAt =>
      recordOf req.name found.1 found.1.comment (found.2.2.1.canonicalOrSame req.privateFile)
        (found.2.2.1.canonicalOrSame found.2.1) found.2.2.2 expiresAt false req.tags := by
  simp only [importKey_eq, datePair, bind_assoc, pure_bind]

theorem keepsInventory_takePair (vault : Path) (req : ImportedKey) : KeepsInventory (takePair vault req) := by
  refine .bind .get fun w => .bind (.ofExcept _) fun _ => .bind (keepsInventory_publicLineOf req) fun source => ?_
  refine .bind (.ofExcept _) fun pub => .bind (.ask _) fun _ => ?_
  exact .bind (keepsInventory_keepPublicFile _ _ _ _) fun _ => .bind .disk fun _ => .pure _

theorem outcome_datePair (req : ImportedKey) : outcome (datePair vault req now) w =
    match outcome (takePair vault req) w with
    | (.ok (pub, publicFile, d), w') =>
      ((creationTime d req.privateFile now).map fun createdAt => (pub, publicFile, d, createdAt), w')
    | (.error e, w') => (.error e, w') := by
  rw [datePair, outcome_bind]
  rcases outcome (takePair vault req) w with ⟨e | ⟨pub, publicFile, d⟩, w'⟩
  · rfl
  · dsimp only
    rw [outcome_bind, Op.outcome_ofExcept]
    cases creationTime d req.privateFile now <;> rfl

theorem datePair_commits (vault : Path) (req : ImportedKey) (now : Instant) (inv : Inventory) :
    Commits inv (fun _ inv' => inv'.findKey? req.name = none) (datePair vault req now) := by
  intro w same
  have free := takePair_commits vault req inv w same
  have kept := keepsInventory_takePair vault req w
  rw [outcome_datePair]
  rcases run : outcome (takePair vault req) w with ⟨e | ⟨pub, publicFile, d⟩, w'⟩ <;> rw [run] at free kept
  · exact free
  · dsimp only
    cases creationTime d req.privateFile now with
    | error e => exact kept.trans same
    | ok createdAt => exact free

/-- The file of a key that is taken in is from a time that is not kept. All that comes before its date is read
can be done. -/
def Misdated (vault : Path) (w : World) (req : ImportedKey) : Prop :=
  ∃ pub publicFile d w' t, outcome (takePair vault req) w = (.ok (pub, publicFile, d), w') ∧
    d.modified? req.privateFile = some t ∧ ¬ (Reading.of t).instant.InRange

theorem datePair_overflows_iff (req : ImportedKey) :
    (outcome (datePair vault req now) w).1 = .error .dateOverflow ↔ Misdated vault w req := by
  have only := failsOnly_takePair vault req w
  rw [outcome_datePair, Misdated]
  rcases run : outcome (takePair vault req) w with ⟨e | ⟨pub, publicFile, d⟩, w'⟩
  · have other := only e (by rw [run])
    simp [other]
  · have mapped : (creationTime d req.privateFile now).map (fun createdAt => (pub, publicFile, d, createdAt)) =
        .error .dateOverflow ↔ creationTime d req.privateFile now = .error .dateOverflow := by
      cases creationTime d req.privateFile now <;> simp [Except.map]
    dsimp only
    rw [mapped, creationTime_eq_error_iff]
    constructor
    · rintro ⟨-, t, modified, past⟩
      exact ⟨pub, publicFile, d, w', t, rfl, modified, past⟩
    · rintro ⟨_, _, _, _, t, ⟨⟩, modified, past⟩
      exact ⟨rfl, t, modified, past⟩

/-- A key that is taken in counts its days from its own making, which may be long ago. -/
theorem importKey_overflows_iff (req : ImportedKey) (kept : now.dayNumber ≤ Instant.lastDay) :
    (outcome (importKey vault req now) w).1 = .error .dateOverflow ↔ Misdated vault w req ∨
      ∃ days, req.ttlDays = some days ∧
        ∃ k, (outcome (importKey vault { req with ttlDays := some 0 } now) w).1 = .ok k ∧
          Instant.lastDay < k.createdAt.dayNumber + days := by
  have earlier : ∀ found, (outcome (datePair vault req now) w).1 = .ok found →
      found.2.2.2.dayNumber ≤ Instant.lastDay := by
    intro found dated
    rw [outcome_datePair] at dated
    rcases run : outcome (takePair vault req) w with ⟨e | ⟨pub, publicFile, d⟩, w'⟩ <;> rw [run] at dated
    · cases dated
    · dsimp only at dated
      rcases aged : creationTime d req.privateFile now with e | createdAt <;> rw [aged] at dated
      · cases dated
      · obtain rfl := Except.ok.inj dated
        exact (Instant.dayNumber_mono (creationTime_le aged)).trans kept
  rw [importKey_eq_datePair, importKey_eq_datePair, ← datePair_overflows_iff]
  exact overflows_of_enter (datePair_commits vault req now w.inventory) (fun _ _ => rfl) (fun _ _ => rfl) earlier

/-- A rotation of a key in use succeeds where its new key can be made. -/
theorem rotate_ok_iff (req : Rotation) {old : Key} {newName : String}
    (active : w.inventory.activeKey req.name = .ok old)
    (named : req.newName.getD (rotationName w.inventory w.disk vault old.name now) = newName) :
    (∃ o, (outcome (rotate vault req now) w).1 = .ok o) ↔
      ∃ k, (outcome (generate vault (successor old req newName) now) w).1 = .ok k := by
  rw [exists_ok_iff, exists_ok_iff]
  exact forall_congr' fun e => not_congr (rotate_error_iff active named)

/-- A rotation counts the days asked for, or else those of the old key. -/
theorem rotate_overflows_iff (req : Rotation) (kept : now.dayNumber ≤ Instant.lastDay) :
    (outcome (rotate vault req now) w).1 = .error .dateOverflow ↔
      (∃ o, (outcome (rotate vault { req with ttlDays := some 0 } now) w).1 = .ok o) ∧
        ∃ old newName days, w.inventory.activeKey req.name = .ok old ∧
          (successor old req newName).ttlDays = some days ∧ Instant.lastDay < now.dayNumber + days := by
  cases active : w.inventory.activeKey req.name with
  | error e =>
    have refused : ∀ req' : Rotation, req'.name = req.name → outcome (rotate vault req' now) w = (.error e, w) := by
      intro req' same
      rw [← same] at active
      exact outcome_rotate_refused active
    have other := refusedOnly_activeKey w.inventory req.name e active
    rw [refused req rfl]
    simp [other]
  | ok old =>
    generalize chosen : req.newName.getD (rotationName w.inventory w.disk vault old.name now) = newName
    have zero : successor old { req with ttlDays := some 0 } newName =
        { successor old req newName with ttlDays := some 0 } := rfl
    have goes : (∃ o, (outcome (rotate vault { req with ttlDays := some 0 } now) w).1 = .ok o) ↔
        ∃ k, (outcome (generate vault { successor old req newName with ttlDays := some 0 } now) w).1 = .ok k := by
      rw [← zero]
      exact rotate_ok_iff { req with ttlDays := some 0 } active chosen
    rw [rotate_error_iff active chosen, generate_overflows_iff _ kept, ← goes]
    constructor
    · rintro ⟨days, asked, past, done⟩
      exact ⟨done, old, newName, days, rfl, asked, past⟩
    · -- the name of the new key has no say in its days
      rintro ⟨done, old', newName', days, same, asked, past⟩
      cases same
      exact ⟨days, asked, past, done⟩

theorem setExpiry_overflows_iff (name : String) (kept : now.dayNumber ≤ Instant.lastDay) :
    (outcome (setExpiry name ttlDays now) w).1 = .error .dateOverflow ↔
      (∃ due, (outcome (setExpiry name (some 0) now) w).1 = .ok due) ∧
        ∃ days, ttlDays = some days ∧ Instant.lastDay < now.dayNumber + days := by
  rw [outcome_setExpiry, outcome_setExpiry]
  cases known : w.inventory.key name with
  | error e =>
    have other := refusedOnly_key w.inventory name e known
    simp [other]
  | ok k =>
    simp only [expiryFrom_zero kept]
    cases due : expiryFrom now ttlDays with
    | error e =>
      obtain ⟨rfl, days, asked, past⟩ := expiryFrom_eq_error_iff.mp due
      simp [asked, past]
    | ok t =>
      simpa using not_past_of_expiryFrom due

end Lifecycle

/-- `Expiry.at_` with no span longer than one that is kept. -/
def Expiry.at? (expiresAt : Option Instant) (now : Instant) (warnDays : Nat) : Option Expiry :=
  match expiresAt with
  | none => some never
  | some last =>
    if last ≤ now then (Instant.kept? (now.since last)).map fun span => expired (Instant.wholeDays span)
    else do
      let left ← Instant.kept? (last.since now)
      let warning ← Instant.kept? (warnDays * Instant.nanosPerDay)
      return if left < warning then expiring (Instant.wholeDays left) else valid (Instant.wholeDays left)

namespace Key

/-- `ageDays` with no span longer than one that is kept. -/
def ageDays? (k : Key) (now : Instant) : Option Int :=
  (Instant.kept? (now.since k.createdAt)).map Instant.wholeDays

/-- The time between the making of a key and its expiry, where it expires and no span is longer than one
that is kept. -/
def lifetimeSpan? (k : Key) : Option (Option Int) :=
  match k.expiresAt with
  | none => some none
  | some last => (Instant.kept? (last.since k.createdAt)).map fun span =>
      if 0 < Instant.wholeDays span then some (Instant.wholeDays span) else none

/-- Its instants are ones that are kept. -/
structure DatesKept (k : Key) : Prop where
  createdAt : k.createdAt.IsKept
  expiresAt : ∀ last, k.expiresAt = some last → last.IsKept

variable {k : Key} {now : Instant} {warnDays : Nat}

/-- Of a key with such dates everything can be computed that a report says of its dates. -/
theorem DatesKept.computed (dates : k.DatesKept) (kept : now.IsKept) (few : warnDays < Nat.pow 2 32) :
    Expiry.at? k.expiresAt now warnDays = some (k.expiry now warnDays) ∧
      k.ageDays? now = some (k.ageDays now) ∧ k.lifetimeSpan? = some k.lifetimeDays? := by
  obtain ⟨created, expires⟩ := dates
  have age : k.ageDays? now = some (k.ageDays now) := by
    rw [ageDays?, Instant.kept?_since kept created]
    rfl
  unfold lifetimeSpan? lifetimeDays? expiry
  cases due : k.expiresAt with
  | none => exact ⟨rfl, age, rfl⟩
  | some last =>
    have lastKept := expires last due
    refine ⟨?_, age, ?_⟩
    · unfold Expiry.at? Expiry.at_
      by_cases past : last ≤ now
      · simp [past, Instant.kept?_since kept lastKept]
      · simp only [past, if_false, Instant.kept?_since lastKept kept, Instant.kept?_days few]
        split <;> simp_all
    · simp [Instant.kept?_since lastKept created, Option.filter_some]

end Key

/-! ## Requests -/

namespace Request

open Lifecycle

variable {vault : Path} {w : World} {r : Request} {now : Instant}

/-- Requests that set the expiry of a key. -/
def setsExpiry : Request → Bool
  | generate .. | importKey .. | rotate .. | setExpiry .. => true
  | _ => false

/-- The same request with a number of days asked for. -/
def forDays (days : Nat) : Request → Request
  | generate req now => generate { req with ttlDays := some days } now
  | importKey req now => importKey { req with ttlDays := some days } now
  | rotate req now => rotate { req with ttlDays := some days } now
  | setExpiry name _ now => setExpiry name (some days) now
  | r => r

/-- A request takes in a key whose file is from a time that is not kept. -/
inductive Misdated (vault : Path) (w : World) : Request → Prop where
  | importKey {req : ImportedKey} {now : Instant} : Lifecycle.Misdated vault w req →
      Misdated vault w (.importKey req now)

/-- The days that a request counts to the expiry of a key, and the instant that it counts them from. -/
inductive Counts (vault : Path) (w : World) : Request → Instant → Nat → Prop where
  | generate {req : NewKey} {now : Instant} {days : Nat} : req.ttlDays = some days →
      Counts vault w (.generate req now) now days
  /-- They are counted from the making of the key that is taken in. -/
  | importKey {req : ImportedKey} {now : Instant} {days : Nat} {k : Key} : req.ttlDays = some days →
      (outcome (Lifecycle.importKey vault { req with ttlDays := some 0 } now) w).1 = .ok k →
      Counts vault w (.importKey req now) k.createdAt days
  /-- They are those asked for, or those of the key that is followed. -/
  | rotate {req : Rotation} {now : Instant} {days : Nat} {old : Key} {newName : String} :
      w.inventory.activeKey req.name = .ok old → (successor old req newName).ttlDays = some days →
      Counts vault w (.rotate req now) now days
  | setExpiry {name : String} {now : Instant} {days : Nat} : Counts vault w (.setExpiry name (some days) now) now days

theorem result_discard {α : Type} (op : Op α) (w : World) :
    (outcome (discard op) w).1 = (outcome op w).1.map fun _ => () := by
  show (outcome (op >>= fun _ => pure ()) w).1 = _
  rw [outcome_bind]
  rcases outcome op w with ⟨e | a, w'⟩
  · rfl
  · rfl

theorem discard_error_iff {α : Type} {op : Op α} {e : Error} :
    (outcome (discard op) w).1 = .error e ↔ (outcome op w).1 = .error e := by
  rw [result_discard]
  cases (outcome op w).1 with
  | error e' => simp [Except.map]
  | ok a => simp [Except.map]

theorem discard_ok_iff {α : Type} {op : Op α} :
    (outcome (discard op) w).1 = .ok () ↔ ∃ a, (outcome op w).1 = .ok a := by
  rw [result_discard]
  cases (outcome op w).1 with
  | error e => simp [Except.map]
  | ok a => simp [Except.map]

/-- A request that sets an expiry stops for its date just where it takes in a file from a time that is not kept, or
where it would succeed with no day to count and the days that it counts lead past the last one that is kept. -/
theorem overflows_iff (sets : r.setsExpiry = true) (kept : ∀ t, r.time? = some t → t.dayNumber ≤ Instant.lastDay) :
    (outcome (r.run vault) w).1 = .error .dateOverflow ↔ r.Misdated vault w ∨
      (outcome ((r.forDays 0).run vault) w).1 = .ok () ∧
        ∃ start days, r.Counts vault w start days ∧ Instant.lastDay < start.dayNumber + days := by
  cases r with
  | generate req now =>
    rw [or_iff_right (by rintro ⟨⟩)]
    rw [run, forDays, run, discard_error_iff, discard_ok_iff, generate_overflows_iff req (kept now rfl)]
    constructor
    · rintro ⟨days, asked, past, done⟩
      exact ⟨done, now, days, .generate asked, past⟩
    · rintro ⟨done, _, days, counts, past⟩
      cases counts with
      | generate asked => exact ⟨days, asked, past, done⟩
  | importKey req now =>
    rw [run, forDays, run, discard_error_iff, discard_ok_iff, importKey_overflows_iff req (kept now rfl)]
    have misdated : Misdated vault w (.importKey req now) ↔ Lifecycle.Misdated vault w req :=
      ⟨by rintro ⟨late⟩; exact late, .importKey⟩
    rw [misdated]
    refine or_congr_right ?_
    constructor
    · rintro ⟨days, asked, k, done, past⟩
      exact ⟨⟨k, done⟩, k.createdAt, days, .importKey asked done, past⟩
    · rintro ⟨-, _, days, counts, past⟩
      cases counts with
      | importKey asked done => exact ⟨days, asked, _, done, past⟩
  | rotate req now =>
    rw [or_iff_right (by rintro ⟨⟩)]
    rw [run, forDays, run, discard_error_iff, discard_ok_iff, rotate_overflows_iff req (kept now rfl)]
    refine and_congr_right fun done => ?_
    constructor
    · rintro ⟨old, newName, days, active, asked, past⟩
      exact ⟨now, days, .rotate active asked, past⟩
    · rintro ⟨_, days, counts, past⟩
      cases counts with
      | rotate active asked => exact ⟨_, _, days, active, asked, past⟩
  | setExpiry name ttlDays now =>
    rw [or_iff_right (by rintro ⟨⟩)]
    rw [run, forDays, run, discard_error_iff, discard_ok_iff, setExpiry_overflows_iff name (kept now rfl)]
    refine and_congr_right fun done => ?_
    constructor
    · rintro ⟨days, rfl, past⟩
      exact ⟨now, days, .setExpiry, past⟩
    · rintro ⟨_, days, counts, past⟩
      cases counts
      exact ⟨days, rfl, past⟩
  | _ => cases sets

/-- Where the dates on record and now are ones that are kept, every age, lifetime and expiry can be
computed. A request that sets an expiry stops for its date just where it takes in a file from a time that is not
kept, or where it would succeed with no day to count and the days that it counts lead past the last one. -/
theorem overflows_iff_of_datesKept {warnDays : Nat} (dates : ∀ k ∈ w.inventory.keys, k.DatesKept) (kept : now.IsKept)
    (few : warnDays < Nat.pow 2 32) :
    (∀ k ∈ w.inventory.keys, Expiry.at? k.expiresAt now warnDays = some (k.expiry now warnDays) ∧
        k.ageDays? now = some (k.ageDays now) ∧ k.lifetimeSpan? = some k.lifetimeDays?) ∧
      ∀ (vault : Path) (r : Request), r.setsExpiry = true → r.MadeAt now →
        ((outcome (r.run vault) w).1 = .error .dateOverflow ↔ r.Misdated vault w ∨
          (outcome ((r.forDays 0).run vault) w).1 = .ok () ∧
            ∃ start days, r.Counts vault w start days ∧ Instant.lastDay < start.dayNumber + days) := by
  refine ⟨fun k inside => (dates k inside).computed kept few, fun vault r sets madeAt => ?_⟩
  refine overflows_iff sets fun t asked => ?_
  rw [madeAt t asked]
  exact kept.inRange.2

/-- A key `work` is to be made for as many days as 32 bits count. -/
def endlessWork : Request := .generate ⟨"work", .ed25519, none, none, some 4294967295, none, []⟩ ⟨0, 0⟩

/-- All stops when its files have been made, and it does not come on record. -/
theorem overflows_iff_of_endlessWork :
    (outcome (endlessWork.run "vault") freshWorld).1 = .error .dateOverflow ∧
      (endlessWork.after "vault" freshWorld).disk.exists_ "vault/keys/work" = true ∧
      (endlessWork.after "vault" freshWorld).inventory.keyNames = [] := by
  have kept : (Instant.mk 0 0).IsKept := ⟨by decide, by decide⟩
  have dates : ∀ k ∈ freshWorld.inventory.keys, k.DatesKept := List.forall_mem_nil _
  have few : 30 < Nat.pow 2 32 := by decide
  have madeAt : endlessWork.MadeAt ⟨0, 0⟩ := fun t asked => (Option.some.inj asked).symm
  have facts : (outcome ((endlessWork.forDays 0).run "vault") freshWorld).1 = .ok () ∧
      (endlessWork.after "vault" freshWorld).disk.exists_ "vault/keys/work" = true ∧
      (endlessWork.after "vault" freshWorld).inventory.keyNames = [] := by decide +kernel
  obtain ⟨done, left, unrecorded⟩ := facts
  have stops := (overflows_iff_of_datesKept dates kept few).2 "vault" endlessWork rfl madeAt
  exact ⟨stops.mpr (.inr ⟨done, ⟨0, 0⟩, 4294967295, .generate rfl, by decide⟩), left, unrecorded⟩

end Request

end Keyring

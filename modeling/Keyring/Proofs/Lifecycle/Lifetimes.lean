import Keyring.Proofs.Inventory.Retirement
import Keyring.Proofs.Lifecycle.Inheritance

/-!
# Lifetimes along a chain

A key is made for a number of days and followed by keys that no days are asked for. Each is made
for the whole days between the creation of the one before and its expiry. A clock never shows a leap
second, so days after it they are there to the nanosecond (`Key.span?_of_reading`): none is lost on
the way, however long the chain is.
-/

namespace Keyring

open Inventory Lifecycle Time

variable {inv inv' : Inventory} {name other : String} {k : Key} {now created : Instant} {days : Nat}
  {dates : Instant × Option Instant}

/-- How long a key lasts that expires. -/
def Key.span? (k : Key) : Option Int := k.expiresAt.map (·.since k.createdAt)

/-- A key that is made for days at a time that a clock shows lasts exactly as long. -/
theorem Key.span?_of_reading {shown : Time.Reading} (made : k.createdAt = shown.instant) (some_ : 0 < days)
    (expires : expiryFrom k.createdAt (some days) = .ok k.expiresAt) :
    k.span? = some (days * Instant.nanosPerDay) := by
  obtain ⟨⟨⟩, -⟩ | ⟨n, due, asked, moved, expires⟩ := expiryFrom_eq_ok_iff.mp expires
  obtain rfl := Option.some.inj asked
  have notLeap : k.createdAt.isLeap = false := made ▸ decide_eq_false (Nat.not_le.2 shown.regular)
  have later := Instant.since_plusDays moved some_
  rw [notLeap] at later
  rw [span?, expires, Option.map_some, later, if_neg Bool.false_ne_true, Int.sub_zero]

theorem Key.lifetimeDays?_of_span (some_ : 0 < days) (lasts : k.span? = some (days * Instant.nanosPerDay)) :
    k.lifetimeDays? = some (days : Int) := by
  unfold span? at lasts
  obtain ⟨last, due, span⟩ := Option.map_eq_some_iff.mp lasts
  rw [lifetimeDays?_of_due due, span, Instant.wholeDays_mul, if_pos (by omega)]

theorem Lifecycle.reading_of_creationTime {d : Disk} {file : Path} {shown : Time.Reading}
    (aged : creationTime d file shown.instant = .ok created) : ∃ shown' : Time.Reading, created = shown'.instant := by
  unfold creationTime at aged
  split at aged
  · exact ⟨shown, (Except.ok.inj aged).symm⟩
  · rename_i t _
    unfold dateOfFile at aged
    dsimp only at aged
    split at aged
    · obtain rfl := Except.ok.inj aged
      split
      · exact ⟨.of t, rfl⟩
      · exact ⟨shown, rfl⟩
    · cases aged

/-! ## Dates on record -/

/-- When the keys of a name were made and when they expire. -/
def Inventory.datesOf (inv : Inventory) (name : String) : List (Instant × Option Instant) :=
  (inv.keys.filter (·.name = name)).map fun k => (k.createdAt, k.expiresAt)

theorem Inventory.datesOf_eq_nil_iff : inv.datesOf name = [] ↔ inv.findKey? name = none := by
  rw [datesOf, List.map_eq_nil_iff, List.filter_eq_nil_iff, findKey?, List.find?_eq_none]

/-- The first key of a name has the first of the dates. -/
theorem Inventory.dates_of_findKey? (single : inv.datesOf name = [dates]) (found : inv.findKey? name = some k) :
    (k.createdAt, k.expiresAt) = dates := by
  have listed : (k.createdAt, k.expiresAt) ∈ inv.datesOf name := by
    refine List.mem_map_of_mem (List.mem_filter.mpr ⟨List.mem_of_find?_eq_some found, ?_⟩)
    simpa using name_of_findKey? found
  rw [single] at listed
  exact List.mem_singleton.mp listed

theorem Inventory.datesOf_changeKey {change : Key → Key}
    (undated : ∀ k, (change k).name = k.name ∧ (change k).createdAt = k.createdAt ∧
      (change k).expiresAt = k.expiresAt) : (inv.changeKey other change).datesOf name = inv.datesOf name := by
  refine map_filter_changeFirst (fun k => ?_) inv.keys
  obtain ⟨named, made, expires⟩ := undated k
  rw [named, made, expires]
  exact ⟨rfl, rfl⟩

theorem Inventory.datesOf_changeKey_of_ne {change : Key → Key} (named : ∀ k, (change k).name = k.name)
    (apart : other ≠ name) : (inv.changeKey other change).datesOf name = inv.datesOf name := by
  refine congrArg (List.map _) (filter_changeFirst_of_ne (fun k fits => ?_) inv.keys)
  have is : k.name = other := by simpa using fits
  simp [named, is, apart]

theorem Inventory.length_datesOf : (inv.datesOf name).length = inv.keyNames.count name := by
  rw [datesOf, List.length_map, keyNames, List.count, List.countP_map, List.countP_eq_length_filter]
  rfl

/-- What is not wanted may be taken out without notice. -/
theorem Inventory.filter_eraseP_of_ne {α : Type} {fits wanted : α → Bool}
    (apart : ∀ a, fits a = true → wanted a = false) (items : List α) :
    (items.eraseP fits).filter wanted = items.filter wanted := by
  induction items with
  | nil => rfl
  | cons a rest ih =>
    by_cases fit : fits a = true
    · rw [List.eraseP_cons_of_pos fit, List.filter_cons_of_neg (by simp [apart a fit])]
    · rw [List.eraseP_cons_of_neg fit, List.filter_cons, List.filter_cons, ih]

/-- Of a name that is still on record when a key was dropped, it was another key. -/
theorem Inventory.datesOf_dropKey (single : inv.datesOf name = [dates])
    (kept : name ∈ (inv.dropKey other).keyNames) : (inv.dropKey other).datesOf name = [dates] := by
  have apart : other ≠ name := by
    rintro rfl
    have once : inv.keyNames.count other = 1 := by rw [← length_datesOf, single, List.length_singleton]
    rw [keyNames_dropKey] at kept
    have left := List.count_pos_iff.mpr kept
    rw [List.count_erase_self, once] at left
    exact absurd left (by decide)
  have others : ((inv.keys.eraseP (·.name = other)).map (unlinkKey other)).filter (·.name = name) =
      (inv.keys.filter (·.name = name)).map (unlinkKey other) := by
    rw [List.filter_map]
    refine congrArg (List.map _) (filter_eraseP_of_ne (fun k fits => ?_) inv.keys)
    have is : k.name = other := by simpa using fits
    exact decide_eq_false fun same => apart (is.symm.trans same)
  have undated := congrArg (List.map fun k : Key => (k.createdAt, k.expiresAt)) others
  rw [List.map_map] at undated
  exact undated.trans single

theorem Lifecycle.Enters.datesOf_self (entered : Enters inv name k inv') :
    inv'.datesOf name = [(k.createdAt, k.expiresAt)] := by
  have before : inv.datesOf name = [] := datesOf_eq_nil_iff.mpr entered.free
  rw [datesOf, List.map_eq_nil_iff] at before
  rw [entered.added, datesOf, List.filter_append, before, ← entered.name_eq]
  simp

/-- A key comes on record under a name that none had. -/
theorem Lifecycle.Enters.datesOf_of_single (entered : Enters inv other k inv')
    (single : inv.datesOf name = [dates]) : inv'.datesOf name = [dates] := by
  have apart : k.name ≠ name := by
    intro same
    have free := datesOf_eq_nil_iff.mpr entered.free
    rw [← entered.name_eq, same, single] at free
    cases free
  rw [entered.added, datesOf, List.filter_append, List.filter_singleton]
  simpa [apart, datesOf] using single

theorem Lifecycle.datesOf_linkRotation (old new : String) :
    (linkRotation inv old new).datesOf name = inv.datesOf name := by
  have marked : (inv.changeKey old (followedBy new)).datesOf name = inv.datesOf name :=
    datesOf_changeKey fun _ => ⟨rfl, rfl, rfl⟩
  have linked : ((inv.changeKey old (followedBy new)).changeKey new (following old)).datesOf name =
      (inv.changeKey old (followedBy new)).datesOf name := datesOf_changeKey fun _ => ⟨rfl, rfl, rfl⟩
  exact linked.trans marked

/-- No request but the one for another expiry changes the dates of a key that stays on record. -/
theorem Effect.datesOf_eq {r : Request} (effect : Effect inv r inv') (single : inv.datesOf name = [dates])
    (unset : ∀ ttlDays now, r ≠ .setExpiry name ttlDays now) (kept : name ∈ inv'.keyNames) :
    inv'.datesOf name = [dates] := by
  cases effect with
  | nothing => exact single
  | generate entered => exact entered.datesOf_of_single single
  | importKey entered => exact entered.datesOf_of_single single
  | rotate rotated =>
    obtain ⟨_, made, mid, -, entered, -, -, rfl⟩ := rotated.succession
    rw [datesOf_linkRotation]
    exact entered.datesOf_of_single single
  | revokeKey =>
    refine Eq.trans (datesOf_changeKey ?_) single
    exact fun _ => ⟨rfl, rfl, rfl⟩
  | @setExpiry other ttlDays now _ =>
    have apart : other ≠ name := fun same => unset ttlDays now (same ▸ rfl)
    refine Eq.trans (datesOf_changeKey_of_ne ?_ apart) single
    exact fun _ => rfl
  | removeKey removed =>
    obtain ⟨_, _, _, rfl⟩ := removeKey_eq_ok removed
    exact datesOf_dropKey single kept
  | addHost _ inserted =>
    obtain ⟨_, _, rfl⟩ := insertHost_eq_ok inserted
    exact single
  | updateHost => exact single
  | removeHost removed =>
    rw [removeHost_eq_ok removed]
    exact single
  | testConnection => exact single
  | deploy _ recorded =>
    obtain ⟨_, rfl⟩ := of_recordDeployment recorded
    exact single
  | markDeployed _ recorded =>
    obtain ⟨_, rfl⟩ := of_recordDeployment recorded
    exact single
  | verify marked =>
    rw [markVerified_eq_ok marked]
    exact single
  | revoke removed =>
    rw [removeDeployment_eq_ok removed]
    exact single

/-- The key of this name belongs to a chain whose first key was made for so many days. Vault, files, tools,
their replies and what the clock shows may be others each time, and requests of any kind may come in
between. -/
inductive Inventory.Descends (days : Nat) : Inventory → String → Prop where
  | generated {vault : Path} {req : NewKey} {now : Time.Reading} {k : Key} {w w' : World} :
      req.ttlDays = some days → outcome (generate vault req now.instant) w = (.ok k, w') →
      Descends days w'.inventory req.name
  | imported {vault : Path} {req : ImportedKey} {now : Time.Reading} {k : Key} {w w' : World} :
      req.ttlDays = some days → outcome (importKey vault req now.instant) w = (.ok k, w') →
      Descends days w'.inventory req.name
  | rotated {vault : Path} {req : Rotation} {now : Time.Reading} {o : RotationOutcome} {w w' : World} :
      Descends days w.inventory req.name → req.ttlDays = none →
      outcome (rotate vault req now.instant) w = (.ok o, w') → Descends days w'.inventory o.new.name
  | kept {name : String} {w : World} (vault : Path) (r : Request) :
      Descends days w.inventory name → (∀ ttlDays now, r ≠ .setExpiry name ttlDays now) →
      name ∈ (r.after vault w).inventory.keyNames → Descends days (r.after vault w).inventory name

/-- The one key of a name was made for so many days, at a time that a clock shows. -/
def Inventory.MadeFor (days : Nat) (inv : Inventory) (name : String) : Prop :=
  ∃ (shown : Time.Reading) (due : Option Instant), inv.datesOf name = [(shown.instant, due)] ∧
    expiryFrom shown.instant (some days) = .ok due

theorem Inventory.MadeFor.span? (madeFor : inv.MadeFor days name) (some_ : 0 < days)
    (found : inv.findKey? name = some k) : k.span? = some (days * Instant.nanosPerDay) := by
  obtain ⟨shown, due, dated, expires⟩ := madeFor
  obtain ⟨made, due⟩ := Prod.mk.inj (dates_of_findKey? dated found)
  rw [← made, ← due] at expires
  exact Key.span?_of_reading made some_ expires

theorem Lifecycle.Enters.madeFor (entered : Enters inv name k inv') {shown : Time.Reading}
    (made : k.createdAt = shown.instant) (expires : expiryFrom k.createdAt (some days) = .ok k.expiresAt) :
    inv'.MadeFor days name := by
  refine ⟨shown, k.expiresAt, ?_, made ▸ expires⟩
  rw [entered.datesOf_self, made]

/-- The new key of a rotation is made for the days of the old one. -/
theorem Lifecycle.rotate_madeFor (vault : Path) (shown : Time.Reading) {req : Rotation} (unasked : req.ttlDays = none)
    (some_ : 0 < days) (few : days < Nat.pow 2 32) (madeFor : inv.MadeFor days req.name) :
    Op.Commits inv (fun o inv' => inv'.MadeFor days o.new.name) (rotate vault req shown.instant) := by
  refine commits_rotate fun old newName made mid active makes => ?_
  have found := key_eq_ok_iff.mp (activeKey_eq_ok_iff.mp active).1
  have lasted := Key.lifetimeDays?_of_span some_ (madeFor.span? some_ found)
  have fits : ∀ n, old.lifetimeDays? = some n → n.toNat < Nat.pow 2 32 := by
    intro n is
    obtain rfl := Option.some.inj (lasted.symm.trans is)
    exact few
  have asked := makes.expiresAt
  rw [ttlDays_successor_of_few unasked fits, lasted, Option.map_some, Int.toNat_natCast] at asked
  have enters := makes.enters
  rw [← enters.name_eq] at enters
  refine ⟨shown, made.expiresAt, ?_, asked⟩
  show (linkRotation mid old.name made.name).datesOf made.name = _
  rw [datesOf_linkRotation, enters.datesOf_self, makes.createdAt]

theorem Inventory.Descends.madeFor (some_ : 0 < days) (few : days < Nat.pow 2 32)
    (chain : Descends days inv name) : inv.MadeFor days name := by
  induction chain with
  | @generated vault req now k w w' asked run =>
    have makes := generate_commits vault req now.instant w.inventory w rfl
    rw [run] at makes
    have expires := makes.expiresAt
    rw [← makes.createdAt, asked] at expires
    exact makes.enters.madeFor makes.createdAt expires
  | @imported vault req now k w w' asked run =>
    have imports := importKey_commits vault req now.instant w.inventory w rfl
    rw [run] at imports
    obtain ⟨_, aged⟩ := imports.createdAt
    obtain ⟨shown, made⟩ := reading_of_creationTime aged
    have expires := imports.expiresAt
    rw [asked] at expires
    exact imports.enters.madeFor made expires
  | @rotated vault req now o w w' _ unasked run madeFor =>
    have committed := rotate_madeFor vault now unasked some_ few madeFor w rfl
    rw [run] at committed
    exact committed
  | @kept name w vault r _ unset stays madeFor =>
    obtain ⟨shown, due, dated, expires⟩ := madeFor
    exact ⟨shown, due, (r.effect vault w).datesOf_eq dated unset stays, expires⟩

/-- Whatever happens between its rotations, every key of a chain whose first key was made for so many days,
and that was never given another expiry, lasts for exactly these days. -/
theorem Inventory.lasts_of_descends (some_ : 0 < days) (few : days < Nat.pow 2 32) (chain : Descends days inv name) :
    ∃ k, inv.findKey? name = some k ∧ k.span? = some (days * Instant.nanosPerDay) := by
  have madeFor := chain.madeFor some_ few
  cases found : inv.findKey? name with
  | none =>
    obtain ⟨_, _, dated, -⟩ := madeFor
    rw [datesOf_eq_nil_iff.mpr found] at dated
    cases dated
  | some k => exact ⟨k, rfl, madeFor.span? some_ found⟩

/-- The key `work` is made for one day. -/
def dayKey : NewKey := ⟨"work", .ed25519, none, none, some 1, none, []⟩

def dayWorld : World := (Request.generate dayKey ⟨0, 0⟩).after "vault" Request.freshWorld

/-- Followed an hour later, the key `work` is still on record for its day, and the one after it for another. -/
theorem lasts_of_descends_of_dayWorld : ∃ o w', outcome (rotate "vault" likeRotation ⟨3600, 0⟩) dayWorld = (.ok o, w') ∧
    (∃ k, w'.inventory.findKey? "work" = some k ∧ k.span? = some Instant.nanosPerDay) ∧
    ∃ k, w'.inventory.findKey? o.new.name = some k ∧ k.span? = some Instant.nanosPerDay := by
  have facts : (outcome (generate "vault" dayKey ⟨0, 0⟩) Request.freshWorld).1.isOk = true ∧
      (outcome (rotate "vault" likeRotation ⟨3600, 0⟩) dayWorld).1.isOk = true ∧
      "work" ∈ ((Request.rotate likeRotation ⟨3600, 0⟩).after "vault" dayWorld).inventory.keyNames := by
    decide +kernel
  obtain ⟨made, followed, stays⟩ := facts
  have dayAfter : dayWorld = (outcome (generate "vault" dayKey ⟨0, 0⟩) Request.freshWorld).2 :=
    outcome_discard _ _
  rcases making : outcome (generate "vault" dayKey ⟨0, 0⟩) Request.freshWorld with ⟨_ | _, w⟩
  · rw [making] at made
    cases made
  rw [making] at dayAfter
  obtain rfl : dayWorld = w := dayAfter
  rcases following : outcome (rotate "vault" likeRotation ⟨3600, 0⟩) dayWorld with ⟨_ | o, w'⟩
  · rw [following] at followed
    cases followed
  have after : (Request.rotate likeRotation ⟨3600, 0⟩).after "vault" dayWorld = w' := by
    have ran := outcome_discard (rotate "vault" likeRotation ⟨3600, 0⟩) dayWorld
    rwa [following] at ran
  let midnight : Time.Reading := ⟨⟨0, 0⟩, by decide⟩
  let hourLater : Time.Reading := ⟨⟨3600, 0⟩, by decide⟩
  have first : Descends 1 dayWorld.inventory dayKey.name :=
    @Descends.generated 1 _ dayKey midnight _ _ _ rfl making
  have second : Descends 1 w'.inventory o.new.name :=
    @Descends.rotated 1 _ likeRotation hourLater _ _ _ first rfl following
  have still : Descends 1 w'.inventory "work" := by
    rw [← after]
    exact .kept "vault" (.rotate likeRotation ⟨3600, 0⟩) first nofun stays
  have stillLasts := lasts_of_descends (by decide) (by decide) still
  have lasts := lasts_of_descends (by decide) (by decide) second
  rw [Nat.cast_one, one_mul] at stillLasts lasts
  exact ⟨o, w', rfl, stillLasts, lasts⟩

end Keyring

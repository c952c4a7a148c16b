import Keyring.Proofs.Operation.Effect
import Keyring.Proofs.Operation.Failing
import Keyring.Proofs.Time.Span

/-!
# The making of a key, step by step

A new key and one that is taken in come on record alike: all else is done first, and at last the expiry
is counted and the key put on record (`generate_eq`, `importKey_eq`). The name was found free before, so
that only the counting can still fail (`outcome_enter`).
-/

namespace Keyring.Lifecycle

open Time Op

variable {vault : Path} {now start : Instant} {ttlDays : Option Nat} {w : World} {inv : Inventory} {d : Disk}

/-- A key pair is made, and its public half read. -/
def makeFiles (vault : Path) (req : NewKey) (bits : Option Nat) : Op PublicKey := do
  Op.onDisk do
    Disk.ensureDirectory (Layout.keysDir vault)
    Disk.setMode (Layout.keysDir vault) 0o700
  let output ← Op.call Call.keyMaker
    (keygenArgs req bits (req.comment.getD (req.name ++ "@ssh-vault")) (Layout.privateFile vault req.name)) none
  let _ ← Op.ofExcept (demand Call.keyMaker output)
  Op.onDisk (Disk.setMode (Layout.privateFile vault req.name) 0o600)
  Op.ofExcept (readPublicFile (← Op.disk) (Layout.publicFile vault req.name))

/-- It is made where nothing speaks against it. -/
def makePair (vault : Path) (req : NewKey) : Op PublicKey := do
  let w ← get
  let bits ← Op.ofExcept (checkNew w.inventory w.disk vault req)
  makeFiles vault req bits

/-- A public half is found or derived, and kept in a file; the files are looked at then. -/
def takePair (vault : Path) (req : ImportedKey) : Op (PublicKey × Path × Disk) := do
  let w ← get
  Op.ofExcept (checkImport w.inventory w.disk req)
  let (line, found) ← publicLineOf req
  let pub ← Op.ofExcept (PublicKey.ofText line)
  Op.ask (checkNewMaterial · pub)
  let publicFile ← keepPublicFile vault req.name pub found
  return (pub, publicFile, ← Op.disk)

/-- The expiry is counted, and the key put on record. -/
def enter (start : Instant) (ttlDays : Option Nat) (record : Option Instant → Key) : Op Key := do
  let expiresAt ← Op.ofExcept (expiryFrom start ttlDays)
  Op.edit (InventoryM.insertKey (record expiresAt))
  return record expiresAt

theorem generate_eq (vault : Path) (req : NewKey) (now : Instant) : generate vault req now = (do
    let pub ← makePair vault req
    enter now req.ttlDays fun expiresAt => recordOf req.name pub (req.comment.getD (req.name ++ "@ssh-vault"))
      (Layout.privateFile vault req.name) (Layout.publicFile vault req.name) now expiresAt true req.tags) := by
  simp only [generate, makePair, makeFiles, enter, bind_assoc]

theorem importKey_eq (vault : Path) (req : ImportedKey) (now : Instant) : importKey vault req now = (do
    let (pub, publicFile, d) ← takePair vault req
    let createdAt ← Op.ofExcept (creationTime d req.privateFile now)
    enter createdAt req.ttlDays fun expiresAt => recordOf req.name pub pub.comment
      (d.canonicalOrSame req.privateFile) (d.canonicalOrSame publicFile) createdAt expiresAt false req.tags) := by
  simp only [importKey, takePair, enter, bind_assoc, pure_bind]

theorem outcome_makePair {req : NewKey} {bits : Option Nat}
    (checked : checkNew w.inventory w.disk vault req = .ok bits) :
    outcome (makePair vault req) w = outcome (makeFiles vault req bits) w := by
  unfold makePair
  rw [outcome_bind, outcome_get]
  dsimp only
  rw [outcome_bind, outcome_ofExcept, checked]

theorem keepsInventory_makeFiles (vault : Path) (req : NewKey) (bits : Option Nat) :
    KeepsInventory (makeFiles vault req bits) := by
  unfold makeFiles
  refine .bind (.onDisk _) fun _ => .bind (keepsInventory_call _ _ _) fun output => ?_
  exact .bind (.ofExcept _) fun _ => .bind (.onDisk _) fun _ => .bind .disk fun d => .ofExcept _

theorem failsOnly_makeFiles (vault : Path) (req : NewKey) (bits : Option Nat) :
    FailsOnly (·.blamesOutside) (makeFiles vault req bits) := by
  unfold makeFiles
  refine .bind (.onDisk _) fun _ => .bind (.call _ _ _) fun output => ?_
  refine .bind (.ofExcept (refusedOnly_demand _ _)) fun _ => .bind (.onDisk _) fun _ => ?_
  exact .bind .disk fun d => .ofExcept (refusedOnly_readPublicFile _ _)

/-- Whatever else is checked, a name that passes is no key's. -/
theorem findKey?_of_passed {α : Type} {name : String} {rest : Except Error α} {a : α} (passed : (do
    Name.check name
    if (inv.findKey? name).isSome then throw (Error.keyExists name)
    rest) = .ok a) : inv.findKey? name = none := by
  cases named : Name.check name with
  | error e => simp [named, bind, Except.bind] at passed
  | ok u =>
    cases found : inv.findKey? name with
    | none => rfl
    | some k => simp [named, found, bind, Except.bind, throw, throwThe, MonadExceptOf.throw] at passed

theorem findKey?_of_checkNew {req : NewKey} {bits : Option Nat} (checked : checkNew inv d vault req = .ok bits) :
    inv.findKey? req.name = none := findKey?_of_passed checked

theorem findKey?_of_checkImport {req : ImportedKey} (checked : checkImport inv d req = .ok ()) :
    inv.findKey? req.name = none := findKey?_of_passed checked

theorem makePair_commits (vault : Path) (req : NewKey) (inv : Inventory) :
    Commits inv (fun _ inv' => inv'.findKey? req.name = none) (makePair vault req) := by
  unfold makePair
  refine Commits.get fun w same => Commits.ofExcept fun bits checked => ?_
  refine Commits.ofKept (keepsInventory_makeFiles vault req bits) fun _ => ?_
  rw [← same]
  exact findKey?_of_checkNew checked

theorem takePair_commits (vault : Path) (req : ImportedKey) (inv : Inventory) :
    Commits inv (fun _ inv' => inv'.findKey? req.name = none) (takePair vault req) := by
  unfold takePair
  refine Commits.get fun w same => Commits.ofExcept fun _ checked => ?_
  refine Commits.after (keepsInventory_publicLineOf req) fun source => Commits.ofExcept fun pub _ => ?_
  refine Commits.ask fun _ _ => Commits.after (keepsInventory_keepPublicFile _ _ _ _) fun publicFile => ?_
  refine Commits.after KeepsInventory.disk fun d => Commits.pure ?_
  rw [← same]
  exact findKey?_of_checkImport checked

theorem expiryFrom_eq_error_iff {e : Error} : expiryFrom start ttlDays = .error e ↔
    e = .dateOverflow ∧ ∃ days, ttlDays = some days ∧ Instant.lastDay < start.dayNumber + days := by
  cases ttlDays with
  | none => simp [expiryFrom]
  | some days =>
    cases moved : start.plusDays? days with
    | none =>
      have past := Instant.plusDays?_eq_none_iff.mp moved
      simp [expiryFrom, moved, past, eq_comm]
    | some t =>
      have within : ¬ Instant.lastDay < start.dayNumber + days := by
        rw [← Instant.plusDays?_eq_none_iff, moved]
        nofun
      simp [expiryFrom, moved, within]

theorem not_past_of_expiryFrom {due : Option Instant} (counted : expiryFrom start ttlDays = .ok due) :
    ∀ days, ttlDays = some days → ¬ Instant.lastDay < start.dayNumber + days := by
  intro days asked past
  rw [expiryFrom_eq_error_iff.mpr ⟨rfl, days, asked, past⟩] at counted
  cases counted

theorem expiryFrom_zero (kept : start.dayNumber ≤ Instant.lastDay) : expiryFrom start (some 0) = .ok (some start) := by
  simp [expiryFrom, Instant.plusDays?, kept]

/-- A key with a free name comes on record unless its expiry cannot be counted. -/
theorem outcome_enter {record : Option Instant → Key} {name : String} (free : w.inventory.findKey? name = none)
    (named : ∀ due, (record due).name = name) : outcome (enter start ttlDays record) w =
      match expiryFrom start ttlDays with
      | .ok due => (.ok (record due),
          { w with inventory := { w.inventory with keys := w.inventory.keys ++ [record due] } })
      | .error e => (.error e, w) := by
  unfold enter
  rw [outcome_bind, outcome_ofExcept]
  cases expiryFrom start ttlDays with
  | error e => rfl
  | ok due =>
    dsimp only
    rw [outcome_bind, outcome_edit_changed (InventoryM.atomic_insertKey _), ← Inventory.insertKey,
      Inventory.insertKey_eq, named, free]
    rfl

theorem of_enter_ok {record : Option Instant → Key} {name : String} {k : Key} {w' : World}
    (free : w.inventory.findKey? name = none) (named : ∀ due, (record due).name = name)
    (run : outcome (enter start ttlDays record) w = (.ok k, w')) :
    ∃ due, expiryFrom start ttlDays = .ok due ∧ k = record due ∧
      w' = { w with inventory := { w.inventory with keys := w.inventory.keys ++ [k] } } := by
  rw [outcome_enter free named] at run
  split at run
  · rename_i due counted
    cases run
    exact ⟨due, counted, rfl, rfl⟩
  · cases run

theorem refusedOnly_enter {record : Option Instant → Key} {name : String}
    (free : w.inventory.findKey? name = none) (named : ∀ due, (record due).name = name) :
    RefusedOnly (· = .dateOverflow) (outcome (enter start ttlDays record) w).1 := by
  rw [outcome_enter free named]
  cases due : expiryFrom start ttlDays with
  | error e => exact .error (expiryFrom_eq_error_iff.mp due).1
  | ok t => exact .ok _

/-- The public half of a pair that is made is read from its file. -/
theorem of_makePair_ok {req : NewKey} {pub : PublicKey} {w' : World}
    (run : outcome (makePair vault req) w = (.ok pub, w')) :
    readPublicFile w'.disk (Layout.publicFile vault req.name) = .ok pub := by
  obtain ⟨_, t, _, run⟩ := of_outcome_bind_ok run
  obtain ⟨bits, t, _, run⟩ := of_outcome_bind_ok run
  obtain ⟨_, t, _, run⟩ := of_outcome_bind_ok run
  obtain ⟨output, t, _, run⟩ := of_outcome_bind_ok run
  obtain ⟨_, t, _, run⟩ := of_outcome_bind_ok run
  obtain ⟨_, t, _, run⟩ := of_outcome_bind_ok run
  rw [outcome_bind, outcome_disk] at run
  dsimp only at run
  rw [Op.outcome_ofExcept] at run
  obtain ⟨read, rfl⟩ := Prod.mk.inj run
  exact read

/-- A new key is made of its pair, and put on record last. -/
theorem of_generate_ok {req : NewKey} {k : Key} {w' : World} (run : outcome (generate vault req now) w = (.ok k, w')) :
    ∃ pub t due, outcome (makePair vault req) w = (.ok pub, t) ∧ expiryFrom now req.ttlDays = .ok due ∧
      k = recordOf req.name pub (req.comment.getD (req.name ++ "@ssh-vault")) (Layout.privateFile vault req.name)
        (Layout.publicFile vault req.name) now due true req.tags ∧
      w' = { t with inventory := { t.inventory with keys := t.inventory.keys ++ [k] } } := by
  have free := makePair_commits vault req w.inventory w rfl
  rw [generate_eq] at run
  obtain ⟨pub, t, made, entered⟩ := of_outcome_bind_ok run
  rw [made] at free
  obtain ⟨due, counted, rfl, rfl⟩ := of_enter_ok free (fun _ => rfl) entered
  exact ⟨pub, t, due, made, counted, rfl, rfl⟩

/-- A pair that is taken passed its checks: its public half was found and read, and was on no record. -/
theorem of_takePair_ok {req : ImportedKey} {pub : PublicKey} {publicFile : Path} {w' : World}
    (run : outcome (takePair vault req) w = (.ok (pub, publicFile, d), w')) :
    checkImport w.inventory w.disk req = .ok () ∧ d = w'.disk ∧
      ∃ line found t, outcome (publicLineOf req) w = (.ok (line, found), t) ∧ PublicKey.ofText line = .ok pub ∧
        checkNewMaterial t.inventory pub = .ok () ∧
        outcome (keepPublicFile vault req.name pub found) t = (.ok publicFile, w') := by
  rw [takePair, outcome_bind, outcome_get] at run
  dsimp only at run
  rw [outcome_bind, Op.outcome_ofExcept] at run
  rcases checked : checkImport w.inventory w.disk req with e | u
  · rw [checked] at run
    cases run
  rw [checked] at run
  dsimp only at run
  obtain ⟨⟨line, found⟩, t, asked, run⟩ := of_outcome_bind_ok run
  obtain ⟨pub', t₁, parsed, run⟩ := of_outcome_bind_ok run
  rw [Op.outcome_ofExcept] at parsed
  obtain ⟨read, rfl⟩ := Prod.mk.inj parsed
  obtain ⟨_, t₂, asked', run⟩ := of_outcome_bind_ok run
  rw [Op.outcome_ask] at asked'
  obtain ⟨new, rfl⟩ := Prod.mk.inj asked'
  obtain ⟨publicFile', t₃, kept, run⟩ := of_outcome_bind_ok run
  rw [outcome_bind, outcome_disk] at run
  cases run
  exact ⟨rfl, rfl, line, found, t, asked, read, new, kept⟩

/-- A key that is taken in is made of its pair, and put on record last. -/
theorem of_importKey_ok {req : ImportedKey} {k : Key} {w' : World}
    (run : outcome (importKey vault req now) w = (.ok k, w')) :
    ∃ pub publicFile t createdAt due, outcome (takePair vault req) w = (.ok (pub, publicFile, t.disk), t) ∧
      creationTime t.disk req.privateFile now = .ok createdAt ∧ expiryFrom createdAt req.ttlDays = .ok due ∧
      k = recordOf req.name pub pub.comment (t.disk.canonicalOrSame req.privateFile)
        (t.disk.canonicalOrSame publicFile) createdAt due false req.tags ∧
      w' = { t with inventory := { t.inventory with keys := t.inventory.keys ++ [k] } } := by
  have free := takePair_commits vault req w.inventory w rfl
  rw [importKey_eq] at run
  obtain ⟨⟨pub, publicFile, d⟩, t, taken, run⟩ := of_outcome_bind_ok run
  obtain rfl := (of_takePair_ok taken).2.1
  rw [taken] at free
  obtain ⟨createdAt, t', asked, entered⟩ := of_outcome_bind_ok run
  rw [Op.outcome_ofExcept] at asked
  obtain ⟨aged, rfl⟩ := Prod.mk.inj asked
  obtain ⟨due, counted, rfl, rfl⟩ := of_enter_ok free (fun _ => rfl) entered
  exact ⟨pub, publicFile, t, createdAt, due, taken, aged, counted, rfl, rfl⟩

end Keyring.Lifecycle

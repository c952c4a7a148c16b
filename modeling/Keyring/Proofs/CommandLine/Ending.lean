import Keyring.Proofs.CommandLine.Reporting
import Keyring.Proofs.Operation.Request

/-!
# How commands end

Most commands on keys and hosts make one request: they read the inventory, have the
request carried out, and write the inventory back only once nothing is left that can
fail. So they end in one of four ways (`Ends`), and only in the last is the file of the
inventory written.
-/

namespace Keyring.CommandLine

open Disk

variable {α β : Type}

def Setting.inventoryFile (setting : Setting) (d : Disk) : Path :=
  setting.inventory.getD (Store.inventoryFile d setting.vault)

theorem Setting.inventoryFile_of_some {setting : Setting} {p : Path} (override : setting.inventory = some p)
    (d : Disk) : setting.inventoryFile d = p := by
  rw [inventoryFile, override, Option.getD_some]

theorem Setting.inventoryFile_of_none {setting : Setting} (unset : setting.inventory = none) (d : Disk) :
    setting.inventoryFile d = Store.inventoryFile d setting.vault := by
  rw [inventoryFile, unset, Option.getD_none]

theorem outcome_openInventory_eq (setting : Setting) (c : Console) : outcome (openInventory setting) c =
    match Store.loadInventory c.world.disk (setting.inventoryFile c.world.disk) with
    | .ok recorded => (.ok (setting.inventoryFile c.world.disk),
        { c with world := { c.world with inventory := recorded } })
    | .error e => (.error ((Failure.ofError e).within
        ("failed to load inventory " ++ setting.inventoryFile c.world.disk)), c) := by
  have located : outcome (inventoryPath setting) c = (.ok (setting.inventoryFile c.world.disk), c) := rfl
  rw [openInventory, outcome_bind, located]
  dsimp only
  rw [outcome_bind, outcome_disk]
  dsimp only
  rw [outcome_bind, outcome_performFor, Op.outcome_ofExcept]
  cases Store.loadInventory c.world.disk (setting.inventoryFile c.world.disk) <;> rfl

theorem outcome_openInventory_of_loaded {setting : Setting} {c : Console} {path : Path} {inv : Inventory}
    (file : setting.inventoryFile c.world.disk = path) (loaded : Store.loadInventory c.world.disk path = .ok inv) :
    outcome (openInventory setting) c = (.ok path, { c with world := { c.world with inventory := inv } }) := by
  rw [outcome_openInventory_eq, file, loaded]

/-- The inventory is read from its file, or nothing happens. -/
theorem outcome_openInventory (setting : Setting) (c : Console) :
    (∃ recorded, Store.loadInventory c.world.disk (setting.inventoryFile c.world.disk) = .ok recorded ∧
      outcome (openInventory setting) c = (.ok (setting.inventoryFile c.world.disk),
        { c with world := { c.world with inventory := recorded } })) ∨
      ∃ e, outcome (openInventory setting) c = (.error e, c) := by
  rw [outcome_openInventory_eq]
  cases Store.loadInventory c.world.disk (setting.inventoryFile c.world.disk) with
  | error e => exact .inr ⟨_, rfl⟩
  | ok recorded => exact .inl ⟨recorded, rfl, rfl⟩

theorem outcome_saveInventory (path : Path) (c : Console) :
    (∃ w, outcome (Store.saveInventory c.world.inventory path) c.world = (.ok (), w) ∧
      outcome (saveInventory path) c = (.ok (), { c with world := w })) ∨
      ∃ e e' w, outcome (Store.saveInventory c.world.inventory path) c.world = (.error e, w) ∧
        outcome (saveInventory path) c = (.error e', { c with world := w }) := by
  rw [saveInventory, keepInventory, outcome_bind, outcome_inventory]
  dsimp only
  rw [outcome_performFor]
  rcases outcome (Store.saveInventory c.world.inventory path) c.world with ⟨e | u, w⟩
  · exact .inr ⟨e, _, w, rfl, rfl⟩
  · exact .inl ⟨w, rfl, rfl⟩

theorem filesOnly_of_saveInventory {inv : Inventory} {path : Path} {w w' : World} {answer : Except Error Unit}
    (saved : outcome (Store.saveInventory inv path) w = (answer, w')) : FilesOnly w w' := by
  have only : FilesOnly w (outcome (Store.saveInventory inv path) w).2 := filesOnly_onDisk _ w
  rwa [saved] at only

/-! ## How a command ends -/

/-- How a command ends that reads the inventory of a file, makes one request, and writes the inventory
back. -/
inductive Ends (vault path : Path) (w : World) : Except Error Request → Except Failure Unit → World → Prop
  /-- Nothing is asked for, or the inventory cannot be read. -/
  | idle {request : Except Error Request} {e : Failure} {w' : World} :
      w'.disk = w.disk → w'.calls = w.calls → Ends vault path w request (.error e) w'
  /-- The request fails, or its answer is not the one hoped for. -/
  | stopped {r : Request} {recorded : Inventory} {answer : Except Error Unit} {e : Failure} {w₁ : World} :
      Store.loadInventory w.disk path = .ok recorded →
      outcome (r.run vault) { w with inventory := recorded } = (answer, w₁) →
      Ends vault path w (.ok r) (.error e) w₁
  /-- The inventory cannot be written. -/
  | stuck {r : Request} {recorded : Inventory} {e : Error} {e' : Failure} {w₁ w₂ : World} :
      Store.loadInventory w.disk path = .ok recorded →
      outcome (r.run vault) { w with inventory := recorded } = (.ok (), w₁) →
      outcome (Store.saveInventory w₁.inventory path) w₁ = (.error e, w₂) →
      Ends vault path w (.ok r) (.error e') w₂
  | saved {r : Request} {recorded : Inventory} {w₁ w₂ : World} :
      Store.loadInventory w.disk path = .ok recorded →
      outcome (r.run vault) { w with inventory := recorded } = (.ok (), w₁) →
      outcome (Store.saveInventory w₁.inventory path) w₁ = (.ok (), w₂) →
      Ends vault path w (.ok r) (.ok ()) w₂

/-- The inventory in memory before a command is of no matter. -/
theorem Ends.forget {vault path : Path} {w w' : World} {before : Inventory} {request : Except Error Request}
    {answer : Except Failure Unit} (ends : Ends vault path { w with inventory := before } request answer w') :
    Ends vault path w request answer w' := by
  cases ends with
  | idle disk calls => exact .idle disk calls
  | stopped loaded ran => exact .stopped loaded ran
  | stuck loaded ran failed => exact .stuck loaded ran failed
  | saved loaded ran saved => exact .saved loaded ran saved

/-- A command, run from a console, ends in one of these ways. -/
def EndsWell (setting : Setting) (request : Except Error Request) (command : Cli Unit) (c : Console) : Prop :=
  Ends setting.vault (setting.inventoryFile c.world.disk) c.world request (outcome command c).1
    (outcome command c).2.world

/-- An operation is what a request asks for, its answer left out. -/
def IsAskedBy (vault : Path) (r : Request) (op : Op α) : Prop :=
  ∀ w, outcome (r.run vault) w = ((outcome op w).1.map fun _ => (), (outcome op w).2)

theorem isAskedBy_discard {vault : Path} {r : Request} {op : Op α} (is : r.run vault = discard op) :
    IsAskedBy vault r op := by
  intro w
  rw [is]
  show outcome (op >>= fun _ => pure ()) w = _
  rw [outcome_bind]
  rcases outcome op w with ⟨_ | _, _⟩ <;> rfl

theorem isAskedBy_self {vault : Path} {r : Request} {op : Op Unit} (is : r.run vault = op) :
    IsAskedBy vault r op := by
  intro w
  rw [is]
  rcases outcome op w with ⟨_ | _, _⟩ <;> rfl

/-- A step that carries out an operation, at a time if that is what the clock shows. -/
def CarriesOut (t : Time.Instant) (op : Op α) (work : Cli α) : Prop :=
  ∀ c : Console, c.clock.now = t → (outcome work c).1 = (outcome op c.world).1.mapError Failure.ofError ∧
    (outcome work c).2.world = (outcome op c.world).2

theorem carriesOut_perform (t : Time.Instant) (op : Op α) : CarriesOut t op (perform op) := by
  intro c _
  rw [outcome_perform]
  rcases outcome op c.world with ⟨_ | _, _⟩ <;> exact ⟨rfl, rfl⟩

theorem carriesOut_performNow (t : Time.Instant) (op : Time.Instant → Op α) :
    CarriesOut t (op t) (performNow op) := by
  rintro c rfl
  rw [outcome_performNow]
  exact carriesOut_perform c.clock.later.now (op c.clock.now) { c with clock := c.clock.later } rfl

section Ends

variable {setting : Setting} {c : Console} {r : Request} {op : Op α} {work : Cli α}

/-- After a step that leaves the world alone and may fail, a command ends as what follows does. -/
theorem EndsWell.after {x : Cli α} {f : α → Cli Unit} {request : Except Error Request} (still : Still x)
    (next : ∀ a, outcome x c = (.ok a, c) → EndsWell setting request (f a) c) :
    EndsWell setting request (x >>= f) c := by
  have same := still c
  unfold EndsWell
  rw [outcome_bind]
  rcases run : outcome x c with ⟨e | a, c'⟩ <;> rw [run] at same <;> obtain rfl := same
  · exact .idle rfl rfl
  · exact next a run

/-- Steps that fail and leave the world alone. -/
def GivesUp (x : Cli Unit) : Prop := ∀ c, ∃ e, (outcome x c).1 = .error e ∧ (outcome x c).2.world = c.world

theorem givesUp_of_tells {x : Cli Unit} (tells : Tells x) (text : String) :
    GivesUp (x >>= fun _ => fail text) := by
  intro c
  have told := (tells c).1
  have left := tells.world c
  rw [outcome_bind]
  rcases run : outcome x c with ⟨e | u, c'⟩ <;> rw [run] at told left
  · cases told
  · exact ⟨_, rfl, left⟩

/-- What is left of a command once its request is done: the inventory is written back and the rest is a
report, or the command fails with nothing kept. -/
inductive Finishes (path : Path) (rest : Cli Unit) : Prop
  | keeps {tell : Cli Unit} : Tells tell → rest = (saveInventory path >>= fun _ => tell) → Finishes path rest
  | givesUp : GivesUp rest → Finishes path rest

theorem endsWell_of_finishes (asked : IsAskedBy setting.vault r op) (carries : CarriesOut c.clock.now op work)
    {rest : Path → α → Cli Unit} (finishes : ∀ path a, Finishes path (rest path a)) :
    EndsWell setting (.ok r) (do
      let path ← openInventory setting
      let a ← work
      rest path a) c := by
  unfold EndsWell
  obtain ⟨recorded, loaded, opened⟩ | ⟨e, failed⟩ := outcome_openInventory setting c
  · rw [outcome_bind, opened]
    dsimp only
    have answered := asked { c.world with inventory := recorded }
    obtain ⟨answer, left⟩ := carries { c with world := { c.world with inventory := recorded } } rfl
    rw [outcome_bind]
    rcases ran : outcome work { c with world := { c.world with inventory := recorded } } with ⟨e | a, c₁⟩ <;>
      rw [ran] at answer left <;>
      rcases run : outcome op { c.world with inventory := recorded } with ⟨e' | a', w₁⟩ <;>
      rw [run] at answer left answered
    · exact .stopped loaded (left ▸ answered)
    · cases answer
    · cases answer
    obtain rfl := left
    dsimp only
    cases finishes (setting.inventoryFile c.world.disk) a with
    | givesUp fails =>
      obtain ⟨e, answer, left⟩ := fails c₁
      rw [answer, left]
      exact .stopped loaded answered
    | keeps tells is =>
      rw [is, outcome_bind]
      obtain ⟨w₂, saved, written⟩ | ⟨e, e', w₂, saved, failed⟩ :=
        outcome_saveInventory (setting.inventoryFile c.world.disk) c₁
      · rw [written]
        dsimp only
        rw [(tells _).1, tells.world]
        exact .saved loaded answered saved
      · rw [failed]
        exact .stuck loaded answered saved
  · rw [outcome_bind, failed]
    exact .idle rfl rfl

theorem endsWell_of_report (asked : IsAskedBy setting.vault r op) (carries : CarriesOut c.clock.now op work)
    {tell : Path → α → Cli Unit} (tells : ∀ path a, Tells (tell path a)) : EndsWell setting (.ok r) (do
      let path ← openInventory setting
      let a ← work
      saveInventory path
      tell path a) c :=
  endsWell_of_finishes asked carries fun path a => .keeps (tells path a) rfl

theorem endsWell_withInventory (asked : IsAskedBy setting.vault r op) (carries : CarriesOut c.clock.now op work)
    {tell : α → Cli Unit} (tells : ∀ a, Tells (tell a)) :
    EndsWell setting (.ok r) (withInventory setting work >>= tell) c := by
  have whole := endsWell_of_report asked carries fun _ a => tells a
  unfold withInventory
  simp only [bind_assoc, pure_bind]
  exact whole

end Ends

/-- The request of a command, where it makes one. It may depend on the time and on the settings. -/
def Command.request? (setting : Setting) (now : Time.Instant) (settings : Except Error Settings) :
    Command → Option (Except Error Request)
  | .keyGenerate wish => some do
      let settings ← settings
      let algorithm ← wishedAlgorithm settings wish.keyType
      return .generate
        { name := wish.name
          algorithm := algorithm
          bits := wish.bits
          comment := wish.comment
          ttlDays := wish.ttlDays.or settings.defaultTtlDays
          passphrase := wish.passphrase
          tags := wish.tags } now
  | .keyImport req => some (.ok (.importKey req now))
  | .keyRotate wish => if wish.deploy then none else some do
      let algorithm ← wish.keyType.mapM Algorithm.ofText
      let _ ← settings
      return .rotate
        { name := wish.name
          newName := wish.newName
          algorithm := algorithm
          bits := wish.bits
          ttlDays := wish.ttlDays
          passphrase := wish.passphrase } now
  | .keyRevoke name => some (.ok (.revokeKey name))
  | .keyExpire name ttlDays => some (.ok (.setExpiry name ttlDays now))
  | .keyRemove name force deleteFiles => some (.ok (.removeKey name force deleteFiles))
  | .hostAdd req => some (.ok (.addHost req setting.user now))
  | .hostUpdate label change => some (.ok (.updateHost label change))
  | .hostRemove label => some (.ok (.removeHost label))
  | .verify key host => some do
      let settings ← settings
      return .verify key host settings.connectTimeoutSecs now
  | .revoke key host => some do
      let settings ← settings
      return .revoke key host settings.connectTimeoutSecs
  | _ => none

def Command.makesOneRequest : Command → Bool
  | .keyGenerate _ | .keyImport _ | .keyRevoke _ | .keyExpire .. | .keyRemove .. => true
  | .keyRotate wish => !wish.deploy
  | .hostAdd _ | .hostUpdate .. | .hostRemove _ | .verify .. | .revoke .. => true
  | _ => false

theorem Command.isSome_request? (setting : Setting) (now : Time.Instant) (settings : Except Error Settings)
    (command : Command) : (command.request? setting now settings).isSome = command.makesOneRequest := by
  cases command with
  | keyRotate wish =>
    rw [request?, makesOneRequest]
    cases wish.deploy <;> rfl
  | _ => rfl

section Commands

variable (setting : Setting) (c : Console)

theorem endsWell_after_settings {f : Settings → Cli Unit} {request : Except Error Request}
    (next : ∀ settings, Store.loadSettings c.world.disk setting.vault = .ok settings →
      EndsWell setting request (f settings) c) : EndsWell setting request (loadSettings setting >>= f) c := by
  refine .after (still_loadSettings setting) fun settings loaded => next settings ?_
  rw [outcome_loadSettings] at loaded
  split at loaded
  · rename_i settings' read
    obtain rfl := Except.ok.inj (Prod.mk.inj loaded).1
    exact read
  · cases (Prod.mk.inj loaded).1

theorem endsWell_after_ofExcept {r : Except Error α} {f : α → Cli Unit} {request : Except Error Request}
    (next : ∀ a, r = .ok a → EndsWell setting request (f a) c) :
    EndsWell setting request (ofExcept r >>= f) c := by
  refine .after (still_ofExcept r) fun a answered => next a ?_
  rw [outcome_ofExcept] at answered
  cases r with
  | error e => cases (Prod.mk.inj answered).1
  | ok b => exact congrArg _ (Except.ok.inj (Prod.mk.inj answered).1)

theorem endsWell_keyGenerate (wish : KeyWish) {request : Except Error Request}
    (asked : (Command.keyGenerate wish).request? setting c.clock.now (Store.loadSettings c.world.disk setting.vault) =
      some request) :
    EndsWell setting request (keyGenerate setting wish) c := by
  refine endsWell_after_settings setting c fun settings loaded => ?_
  refine endsWell_after_ofExcept setting c fun algorithm chosen => ?_
  rw [Command.request?, loaded] at asked
  obtain rfl := Option.some.inj asked
  show EndsWell setting (wishedAlgorithm settings wish.keyType >>= fun algorithm => _) _ c
  rw [chosen]
  exact endsWell_withInventory (isAskedBy_discard rfl) (carriesOut_performNow _ _) fun k => tells_report setting _ _

theorem endsWell_keyRotate (wish : RotationWish) {request : Except Error Request}
    (asked : (Command.keyRotate wish).request? setting c.clock.now (Store.loadSettings c.world.disk setting.vault) =
      some request) :
    EndsWell setting request (keyRotate setting wish) c := by
  rw [Command.request?] at asked
  split at asked
  · cases asked
  rename_i stays
  obtain rfl := Option.some.inj asked
  unfold keyRotate startRotation
  simp only [bind_assoc, pure_bind]
  refine endsWell_after_ofExcept setting c fun algorithm chosen => ?_
  refine endsWell_after_settings setting c fun settings loaded => ?_
  rw [chosen, loaded]
  refine endsWell_of_report (isAskedBy_discard rfl) (carriesOut_performNow _ _) fun path o => ?_
  rw [if_neg stays]
  exact (tells_reportSorted setting _ _).bind tells_pure

/-- Where a key is not on its host any more nothing is kept, and the command fails. -/
theorem endsWell_verify (key host : String) {request : Except Error Request}
    (asked : (Command.verify key host).request? setting c.clock.now (Store.loadSettings c.world.disk setting.vault) =
      some request) :
    EndsWell setting request (verify setting key host) c := by
  refine endsWell_after_settings setting c fun settings loaded => ?_
  rw [Command.request?, loaded] at asked
  obtain rfl := Option.some.inj asked
  refine endsWell_of_finishes (isAskedBy_discard rfl) (carriesOut_performNow _ _) fun path present => ?_
  cases present with
  | true => exact .keeps ((tells_reportSorted setting _ _).bind tells_pure) rfl
  | false => exact .givesUp (givesUp_of_tells (tells_reportSorted setting _ _) _)

theorem endsWell_revoke (key host : String) {request : Except Error Request}
    (asked : (Command.revoke key host).request? setting c.clock.now (Store.loadSettings c.world.disk setting.vault) =
      some request) :
    EndsWell setting request (revoke setting key host) c := by
  refine endsWell_after_settings setting c fun settings loaded => ?_
  rw [Command.request?, loaded] at asked
  obtain rfl := Option.some.inj asked
  exact endsWell_of_report (isAskedBy_self rfl) (carriesOut_perform _ _) fun path _ => tells_reportSorted setting _ _

theorem endsWell_carryOut {command : Command} {request : Except Error Request}
    (asked : command.request? setting c.clock.now (Store.loadSettings c.world.disk setting.vault) = some request) :
    EndsWell setting request (carryOut setting command) c := by
  cases command with
  | keyGenerate wish => exact endsWell_keyGenerate setting c wish asked
  | keyRotate wish => exact endsWell_keyRotate setting c wish asked
  | verify key host => exact endsWell_verify setting c key host asked
  | revoke key host => exact endsWell_revoke setting c key host asked
  | keyImport req =>
    obtain rfl := Option.some.inj asked
    exact endsWell_withInventory (isAskedBy_discard rfl) (carriesOut_performNow _ _) fun _ => tells_report setting _ _
  | keyRevoke name =>
    obtain rfl := Option.some.inj asked
    exact endsWell_withInventory (isAskedBy_discard rfl) (carriesOut_perform _ _) fun _ => tells_reportSorted setting _ _
  | keyExpire name ttlDays =>
    obtain rfl := Option.some.inj asked
    exact endsWell_withInventory (isAskedBy_discard rfl) (carriesOut_performNow _ _) fun _ => tells_reportSorted setting _ _
  | keyRemove name force deleteFiles =>
    obtain rfl := Option.some.inj asked
    exact endsWell_withInventory (isAskedBy_discard rfl) (carriesOut_perform _ _) fun _ => tells_report setting _ _
  | hostAdd req =>
    obtain rfl := Option.some.inj asked
    exact endsWell_withInventory (isAskedBy_discard rfl) (carriesOut_performNow _ _) fun _ => tells_report setting _ _
  | hostUpdate label change =>
    obtain rfl := Option.some.inj asked
    exact endsWell_withInventory (isAskedBy_discard rfl) (carriesOut_perform _ _) fun _ => tells_report setting _ _
  | hostRemove label =>
    obtain rfl := Option.some.inj asked
    exact endsWell_withInventory (isAskedBy_discard rfl) (carriesOut_perform _ _) fun _ => tells_report setting _ _
  | _ => cases asked

end Commands

end Keyring.CommandLine

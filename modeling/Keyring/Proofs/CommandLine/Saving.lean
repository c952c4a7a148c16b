import Keyring.Proofs.CommandLine.Ending
import Keyring.Proofs.Inventory.Storage
import Keyring.Proofs.Lifecycle.Sparing

/-!
# Commands and the file of the inventory

A command that makes one request and fails leaves the file of the inventory as it was,
whatever else it has done by then; one that succeeds leaves the inventory that the request
made.
-/

namespace Keyring.CommandLine

open Disk

/-- The paths at which a request may write or delete a file by itself: those of the keys on record, and those of
the copies of public halves in the vault. -/
def IsKeyPath (vault : Path) (inv : Inventory) (f : Path) : Prop :=
  (∃ name, Name.isName name = true ∧ f = Layout.publicFile vault name) ∨ f ∈ inv.files

/-- A file that neither work on the paths of keys nor the tools that were called come to. -/
structure OutOfReach (vault : Path) (inv : Inventory) (made : List Call) (d : Disk) (path : Path) : Prop where
  apart : ∀ f, IsKeyPath vault inv f → Apart (IsKeyPath vault inv) d false f path
  clear : ∀ c ∈ made, c.SteersClear (IsKeyPath vault inv) path d

/-- Where there are no links, a file is out of reach that is not in the directory of keys, that is none of the
files of a key on record, and that no tool is told to make. -/
theorem outOfReach_of_noLinks {vault path : Path} {inv : Inventory} {made : List Call} {d : Disk}
    (none : ∀ at_ t, d.entryAt at_ ≠ some (.link t))
    (outside : ∀ name,
      textPlace d.workingPlace (Layout.keysDir vault) ++ [name] ≠ textPlace d.workingPlace path)
    (unnamed : ∀ f ∈ inv.files, textPlace d.workingPlace f ≠ textPlace d.workingPlace path)
    (unmade : ∀ c ∈ made, ∀ f, c.madeKey? = some f →
      textPlace d.workingPlace f ≠ textPlace d.workingPlace path ∧
        textPlace d.workingPlace (f ++ ".pub") ≠ textPlace d.workingPlace path) :
    OutOfReach vault inv made d path where
  apart := by
    rintro f (⟨name, named, rfl⟩ | recorded)
    · refine apart_of_noLinks none ?_
      rw [Layout.publicFile, textPlace_join (Name.isName_public named)]
      exact outside _
    · exact apart_of_noLinks none (unnamed f recorded)
  clear := fun c member f makes =>
    ⟨apart_of_noLinks none (unmade c member f makes).1, apart_of_noLinks none (unmade c member f makes).2⟩

/-- The request of an invocation succeeds on the inventory of a file, and leaves a world. -/
def Achieves (env : Environment) (clock : Time.Clock) (inv : Invocation) (path : Path) (w w₁ : World) : Prop :=
  ∃ setting r recorded, settingOf env inv = .ok setting ∧
    inv.command.request? setting clock.now (Store.loadSettings w.disk setting.vault) = some (.ok r) ∧
    Store.loadInventory w.disk path = .ok recorded ∧
    outcome (r.run setting.vault) { w with inventory := recorded } = (.ok (), w₁)

theorem OutOfReach.spared {vault path : Path} {inv : Inventory} {made : List Call} {w w₁ : World} {r : Request}
    {answer : Except Error Unit} (outOfReach : OutOfReach vault inv made w.disk path) (sound : w.disk.WellFormed)
    (run : outcome (r.run vault) { w with inventory := inv } = (answer, w₁))
    (called : w₁.calls = made ++ w.calls) :
    Spared (IsKeyPath vault inv) path w.disk w₁.disk := by
  obtain ⟨made', called', spared⟩ := Request.spares (w := { w with inventory := inv }) sound outOfReach.apart
    (fun name named => .inl ⟨name, named, rfl⟩) (fun f recorded => .inr recorded) r
  rw [Request.after, run] at called' spared
  obtain rfl := List.append_cancel_right (called'.symm.trans called)
  exact spared outOfReach.clear .same

theorem status_conclude {ending : Except Failure Unit} : (conclude ending).1 = okStatus ↔ ending = .ok () := by
  rcases ending with e | u
  · cases e <;> simp [conclude, okStatus, failureStatus, panicStatus]
  · simp [conclude]

theorem ends_run {env : Environment} {tokens : List String} {inv : Invocation} (clock : Time.Clock) (w : World)
    (line : Invocation.read env tokens = .ok inv) (one : inv.command.makesOneRequest = true) :
    (∃ e, settingOf env inv = .error e ∧ (run env clock tokens w).1.status ≠ okStatus ∧
        (run env clock tokens w).2.disk = w.disk) ∨
      ∃ setting request answer, settingOf env inv = .ok setting ∧
        inv.command.request? setting clock.now (Store.loadSettings w.disk setting.vault) = some request ∧
        Ends setting.vault (setting.inventoryFile w.disk) w request answer (run env clock tokens w).2 ∧
        ((run env clock tokens w).1.status = okStatus ↔ answer = .ok ()) := by
  rw [run_eq, line]
  unfold concludeIn runInvocation
  dsimp only
  cases located : settingOf env inv with
  | error e =>
    refine .inl ⟨e, rfl, fun done => ?_, rfl⟩
    cases status_conclude.mp done
  | ok setting =>
    obtain ⟨request, asked⟩ := Option.isSome_iff_exists.mp
      ((Command.isSome_request? setting clock.now (Store.loadSettings w.disk setting.vault) inv.command).trans one)
    have ends := endsWell_carryOut setting (.start w clock) asked
    exact .inr ⟨setting, request, _, rfl, asked, ends.forget, status_conclude⟩

/-- A command that makes one request leaves the file of the inventory as it was when it fails; and when it
succeeds, the file holds the inventory that the request made. -/
theorem inventory_kept_or_saved {env : Environment} {clock : Time.Clock} {tokens : List String} {inv : Invocation}
    {w : World} {path : Path} {made : List Call} (line : Invocation.read env tokens = .ok inv)
    (one : inv.command.makesOneRequest = true)
    (file : ∀ setting, settingOf env inv = .ok setting → setting.inventoryFile w.disk = path)
    (sound : w.disk.WellFormed) (called : (run env clock tokens w).2.calls = made ++ w.calls)
    (outOfReach : ∀ setting recorded, settingOf env inv = .ok setting →
      Store.loadInventory w.disk path = .ok recorded → OutOfReach setting.vault recorded made w.disk path)
    (saves : ∀ w₁, Achieves env clock inv path w w₁ →
      ∃ w₂, outcome (Store.saveInventory w₁.inventory path) w₁ = (.ok (), w₂)) :
    ((run env clock tokens w).1.status ≠ okStatus → ∀ at_,
      w.disk.place true path = .ok at_ ∨ (run env clock tokens w).2.disk.place true path = .ok at_ →
        (run env clock tokens w).2.disk.contentAt at_ = w.disk.contentAt at_) ∧
      ((run env clock tokens w).1.status = okStatus → ∃ w₁, Achieves env clock inv path w w₁ ∧
        (run env clock tokens w).2.disk.readText path = .ok (w₁.inventory.text (.ofPath path)) ∧
        (w₁.inventory.IsStorable → (DocumentKind.ofPath path = .yaml → Yaml.ReadsBack w₁.inventory.data) →
          Store.loadInventory (run env clock tokens w).2.disk path = .ok w₁.inventory)) := by
  obtain ⟨e, located, failed, same⟩ | ⟨setting, request, answer, located, asked, ends, succeeds⟩ :=
    ends_run clock w line one
  · exact ⟨fun _ at_ _ => by rw [same], fun done => absurd done failed⟩
  rw [file setting located] at ends
  rw [ne_eq, succeeds]
  generalize (run env clock tokens w).2 = w' at ends called ⊢
  cases ends with
  | idle disk _ => exact ⟨fun _ at_ _ => by rw [disk], nofun⟩
  | stopped loaded ran =>
    have spared := (outOfReach setting _ located loaded).spared sound ran called
    refine ⟨fun _ at_ led => ?_, nofun⟩
    rcases led with led | led
    · exact spared.content _ at_ .same led
    · exact spared.content _ at_ spared.becomes led
  | stuck loaded ran stuck =>
    obtain ⟨w₂, saved⟩ := saves _ ⟨setting, _, _, located, asked, loaded, ran⟩
    rw [stuck] at saved
    cases (Prod.mk.inj saved).1
  | saved loaded ran saved =>
    refine ⟨fun failed => absurd rfl failed, fun _ => ?_⟩
    refine ⟨_, ⟨setting, _, _, located, asked, loaded, ran⟩, ?_⟩
    have quiet := (filesOnly_of_saveInventory saved).silent.calls
    have spared := (outOfReach setting _ located loaded).spared sound ran (quiet.symm.trans called)
    have read := Store.readText_of_saveInventory (spared.becomes.sound sound) saved
    exact ⟨read, Store.loadInventory_of_readText read⟩

/-- A blank inventory, and a tool that makes private keys without their public halves. -/
def halvingWorld : World where
  inventory := .empty
  disk := emptyDisk.put ["inventory.json"] (.file (.text "\n") 0o600 ⟨0, 0⟩)
  installed := [Call.keyMaker]
  passesNul := true
  replies := []
  usualReply := .ran ⟨some 0, "", ""⟩ ⟨some "SECRET\n", none⟩
  calls := []

theorem wellFormed_halvingWorld : halvingWorld.disk.WellFormed :=
  wellFormed_loneFile (Name.isName_private (by decide)) rfl

theorem noLinks_halvingWorld (at_ : Place) (t : String) : halvingWorld.disk.entryAt at_ ≠ some (.link t) := by
  have notRoot : ["inventory.json"] ≠ [] := by decide
  by_cases here : at_ = ["inventory.json"]
  · rw [here, halvingWorld, entryAt_put_self notRoot]
    nofun
  · rw [halvingWorld, entryAt_put_of_ne notRoot here]
    cases at_ <;> nofun

theorem loadInventory_halvingWorld : Store.loadInventory halvingWorld.disk "inventory.json" = .ok .empty := by
  decide +kernel

theorem outOfReach_halvingWorld {made : List Call} (unmade : ∀ c ∈ made, ∀ f, c.madeKey? = some f →
    textPlace [] f ≠ ["inventory.json"] ∧ textPlace [] (f ++ ".pub") ≠ ["inventory.json"]) :
    OutOfReach "vault" .empty made halvingWorld.disk "inventory.json" := by
  refine outOfReach_of_noLinks noLinks_halvingWorld (fun name => ?_) (List.forall_mem_nil _) unmade
  have directory : textPlace [] (Layout.keysDir "vault") = ["vault", "keys"] := by decide
  intro same
  have long := congrArg List.length ((congrArg (· ++ [name]) directory).symm.trans same)
  cases long

def nothingSet : Environment := ⟨none, none, none, none, none, none⟩

def stillClock : Time.Clock := .still (.of ⟨0, 0⟩)

/-- A key is asked for, of which one half is made. -/
def generateLine : List String :=
  ["--vault-dir", "vault", "--inventory", "inventory.json", "key", "generate", "web"]

def addLine : List String :=
  ["--vault-dir", "vault", "--inventory", "inventory.json", "host", "add", "web", "--hostname", "example.org"]

def invocationThere (command : Command) : Invocation :=
  ⟨some "vault", some "inventory.json", none, false, command⟩

def settingThere : Setting := ⟨"vault", some "inventory.json", none, false, none, none⟩

theorem Achieves.there {command : Command} {r : Request} {w₁ : World}
    (achieves : Achieves nothingSet stillClock (invocationThere command) "inventory.json" halvingWorld w₁)
    (asked : command.request? settingThere stillClock.now (Store.loadSettings halvingWorld.disk "vault") = some (.ok r)) :
    outcome (r.run "vault") halvingWorld = (.ok (), w₁) := by
  obtain ⟨setting, r', recorded, located, asked', loaded, ran⟩ := achieves
  obtain rfl := Except.ok.inj located
  obtain rfl := Except.ok.inj (loaded.symm.trans loadInventory_halvingWorld)
  obtain rfl := Except.ok.inj (Option.some.inj (asked.symm.trans asked'))
  exact ran

/-- The inventory with a host on record. -/
def webInventory : Inventory :=
  { Inventory.empty with
    hosts := [⟨"web", "example.org", "root", 22, none, [], ⟨0, 0⟩, none, none, none⟩] }

theorem isStorable_webInventory : webInventory.IsStorable where
  version := by decide
  keys := List.forall_mem_nil _
  hosts := List.forall_mem_singleton.mpr ⟨by decide, by decide +kernel, nofun⟩
  deployments := List.forall_mem_nil _

theorem hasRoom_halvingWorld : halvingWorld.disk.HasRoom "inventory.json" where
  parent := .inl (by decide)
  named := by decide
  free := by
    refine ⟨["inventory.json"], rfl, fun e entry => ?_⟩
    have notRoot : ["inventory.json"] ≠ [] := by decide
    rw [halvingWorld, entryAt_put_self notRoot] at entry
    obtain rfl := Option.some.inj entry
    rfl

def addWeb : Request := .addHost ⟨"web", "example.org", none, none, none, []⟩ none ⟨0, 0⟩

theorem outcome_addWeb : outcome (addWeb.run "vault") halvingWorld =
    (.ok (), { halvingWorld with inventory := webInventory }) := rfl

def makeWeb : Request := .generate ⟨"web", .ed25519, none, none, none, none, []⟩ ⟨0, 0⟩

theorem makeWeb_fails : (outcome (makeWeb.run "vault") halvingWorld).1 ≠ .ok () := by decide +kernel

/-- The half of a key is on disk but not on record; a host that was added is on record. -/
theorem inventory_kept_of_halvingWorld :
    ((run nothingSet stillClock generateLine halvingWorld).1.status = failureStatus ∧
        (run nothingSet stillClock generateLine halvingWorld).2.disk.contentAt ["vault", "keys", "web"] =
          some (.text "SECRET\n") ∧
        (run nothingSet stillClock generateLine halvingWorld).2.disk.contentAt ["inventory.json"] = some (.text "\n")) ∧
      (run nothingSet stillClock addLine halvingWorld).1.status = okStatus ∧
        Store.loadInventory (run nothingSet stillClock addLine halvingWorld).2.disk "inventory.json" =
          .ok webInventory := by
  have there {tokens : List String} {made : List Call} {command : Command} line one called unmade saves :=
    @inventory_kept_or_saved nothingSet stillClock tokens (invocationThere command) halvingWorld
      "inventory.json" made line one
      (fun setting located => by obtain rfl := Except.ok.inj located; rfl) wellFormed_halvingWorld called
      (fun setting recorded located loaded => by
        obtain rfl := Except.ok.inj located
        obtain rfl := Except.ok.inj (loaded.symm.trans loadInventory_halvingWorld)
        exact outOfReach_halvingWorld unmade) saves
  constructor
  · have line : Invocation.read nothingSet generateLine =
        .ok (invocationThere (.keyGenerate ⟨"web", none, none, none, none, none, []⟩)) := by decide +kernel
    have called : (run nothingSet stillClock generateLine halvingWorld).2.calls =
        [⟨Call.keyMaker,
          ["-q", "-t", "ed25519", "-N", "", "-C", "web@ssh-vault", "-f", "vault/keys/web"], none⟩] ++
          halvingWorld.calls := by decide +kernel
    have stopped : (run nothingSet stillClock generateLine halvingWorld).1.status = failureStatus ∧
        (run nothingSet stillClock generateLine halvingWorld).2.disk.contentAt ["vault", "keys", "web"] =
          some (.text "SECRET\n") := by decide +kernel
    have led : halvingWorld.disk.place true "inventory.json" = .ok ["inventory.json"] := by decide +kernel
    have before : halvingWorld.disk.contentAt ["inventory.json"] = some (.text "\n") := by decide +kernel
    obtain ⟨kept, -⟩ := there line rfl called
      (List.forall_mem_singleton.mpr fun f makes => by obtain rfl := Option.some.inj makes; decide)
      fun w₁ achieves => absurd (congrArg Prod.fst (achieves.there (r := makeWeb) rfl)) makeWeb_fails
    have same := kept (by rw [stopped.1]; decide) ["inventory.json"] (.inl led)
    exact ⟨stopped.1, stopped.2, same.trans before⟩
  · have line : Invocation.read nothingSet addLine =
        .ok (invocationThere (.hostAdd ⟨"web", "example.org", none, none, none, []⟩)) := by decide +kernel
    have done : (run nothingSet stillClock addLine halvingWorld).1.status = okStatus ∧
        (run nothingSet stillClock addLine halvingWorld).2.calls = [] ++ halvingWorld.calls := by decide +kernel
    have left {w₁ : World} (achieves : Achieves nothingSet stillClock (invocationThere
          (.hostAdd ⟨"web", "example.org", none, none, none, []⟩)) "inventory.json" halvingWorld w₁) :
        w₁ = { halvingWorld with inventory := webInventory } :=
      (Prod.mk.inj ((achieves.there (r := addWeb) rfl).symm.trans outcome_addWeb)).2
    obtain ⟨-, saved⟩ := there line rfl done.2 (List.forall_mem_nil _) fun w₁ achieves => by
      rw [left achieves]
      exact Store.exists_saveInventory (w := { halvingWorld with inventory := webInventory })
        wellFormed_halvingWorld hasRoom_halvingWorld webInventory
    obtain ⟨w₁, achieves, -, loads⟩ := saved done.1
    obtain rfl := left achieves
    have inJson : DocumentKind.ofPath "inventory.json" ≠ .yaml := by decide
    exact ⟨done.1, loads isStorable_webInventory fun inYaml => absurd inYaml inJson⟩

end Keyring.CommandLine

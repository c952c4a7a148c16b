import Keyring.CommandLine.Run
import Keyring.Proofs.CommandLine.Console

/-!
# Reports and what is done

Whether a command reports as data or in lines changes what it says and nothing
else. Two commands are compared step by step: from one world and one clock they
come to one answer, one world and one clock, whatever either has said before
(`Alike`). A step that works is alike to itself, for no step reads what was said;
two steps that only say something are alike.
-/

namespace Keyring.CommandLine

variable {α β : Type}

/-- What a step can see: the world and the clock, but not what was said. -/
def Console.seen (c : Console) : World × Time.Clock := (c.world, c.clock)

/-- Two commands that differ in what they say at most. -/
def Alike (x y : Cli α) : Prop :=
  ∀ c c' : Console, c.seen = c'.seen →
    (outcome x c).1 = (outcome y c').1 ∧ (outcome x c).2.seen = (outcome y c').2.seen

theorem Alike.pure (a : α) : Alike (Pure.pure a) (Pure.pure a) := fun _ _ same => ⟨rfl, same⟩

theorem Alike.fail (text : String) : Alike (fail text : Cli α) (fail text) := fun _ _ same => ⟨rfl, same⟩

theorem Alike.bind {x y : Cli α} {f g : α → Cli β} (first : Alike x y) (next : ∀ a, Alike (f a) (g a)) :
    Alike (x >>= f) (y >>= g) := by
  intro c c' same
  obtain ⟨answer, left⟩ := first c c' same
  rw [outcome_bind, outcome_bind]
  rcases run : outcome x c with ⟨e | a, d⟩ <;> rcases run' : outcome y c' with ⟨e' | a', d'⟩ <;>
    rw [run, run'] at answer left
  · obtain rfl := Except.error.inj answer
    exact ⟨rfl, left⟩
  · contradiction
  · contradiction
  · obtain rfl := Except.ok.inj answer
    exact next a d d' left

theorem Alike.mapM {f g : α → Cli β} (each : ∀ a, Alike (f a) (g a)) (items : List α) :
    Alike (items.mapM f) (items.mapM g) := by
  induction items with
  | nil => exact .pure []
  | cons a rest ih =>
    rw [List.mapM_cons, List.mapM_cons]
    exact .bind (each a) fun b => .bind ih fun bs => .pure (b :: bs)

theorem Alike.ite {x y x' y' : Cli α} {p : Prop} [Decidable p] (yes : Alike x y) (no : Alike x' y') :
    Alike (if p then x else x') (if p then y else y') := by
  split
  · exact yes
  · exact no

theorem alike_perform (op : Op α) : Alike (perform op) (perform op) := by
  intro c c' same
  obtain ⟨world, clock⟩ := Prod.mk.inj same
  rw [outcome_perform, outcome_perform, world]
  rcases outcome op c'.world with ⟨e | a, w⟩ <;> exact ⟨rfl, congrArg (Prod.mk w) clock⟩

theorem alike_performFor (doing : String) (op : Op α) :
    Alike (performFor doing op) (performFor doing op) := by
  intro c c' same
  obtain ⟨world, clock⟩ := Prod.mk.inj same
  rw [outcome_performFor, outcome_performFor, world]
  rcases outcome op c'.world with ⟨e | a, w⟩ <;> exact ⟨rfl, congrArg (Prod.mk w) clock⟩

theorem alike_attempt (op : Op α) : Alike (attempt op) (attempt op) := by
  intro c c' same
  obtain ⟨world, clock⟩ := Prod.mk.inj same
  rw [outcome_attempt, outcome_attempt, world]
  rcases outcome op c'.world with ⟨e | a, w⟩ <;> exact ⟨rfl, congrArg (Prod.mk w) clock⟩

theorem alike_now : Alike now now := by
  intro c c' same
  obtain ⟨world, clock⟩ := Prod.mk.inj same
  rw [outcome_now, outcome_now, clock]
  exact ⟨rfl, congrArg (·, c'.clock.later) world⟩

theorem alike_performNow (op : Time.Instant → Op α) : Alike (performNow op) (performNow op) :=
  .bind alike_now fun _ => alike_perform _

theorem alike_ofExcept (r : Except Error α) : Alike (ofExcept r) (ofExcept r) := alike_perform _

theorem alike_disk : Alike disk disk :=
  fun _ _ same => ⟨congrArg (fun s : World × Time.Clock => Except.ok s.1.disk) same, same⟩

theorem alike_inventory : Alike inventory inventory :=
  fun _ _ same => ⟨congrArg (fun s : World × Time.Clock => Except.ok s.1.inventory) same, same⟩

theorem alike_loadSettings (setting : Setting) : Alike (loadSettings setting) (loadSettings setting) :=
  .bind alike_disk fun _ => alike_performFor _ _

theorem alike_openInventory (setting : Setting) : Alike (openInventory setting) (openInventory setting) := by
  refine .bind (.bind alike_disk fun _ => .pure _) fun path => ?_
  refine .bind alike_disk fun _ => .bind (alike_performFor _ _) fun inv => ?_
  exact .bind (alike_perform _) fun _ => .pure path

theorem alike_keepInventory (path : Path) (doing : String) :
    Alike (keepInventory path doing) (keepInventory path doing) :=
  .bind alike_inventory fun _ => alike_performFor _ _

theorem alike_saveInventory (path : Path) : Alike (saveInventory path) (saveInventory path) :=
  alike_keepInventory path _

theorem alike_withInventory (setting : Setting) {work : Cli α} (works : Alike work work) :
    Alike (withInventory setting work) (withInventory setting work) :=
  .bind (alike_openInventory setting) fun path => .bind works fun a =>
    .bind (alike_saveInventory path) fun _ => .pure a

/-- A step that says something at most, and so does not fail. -/
def Tells (x : Cli Unit) : Prop := ∀ c, (outcome x c).1 = .ok () ∧ (outcome x c).2.seen = c.seen

theorem Tells.world {x : Cli Unit} (tells : Tells x) (c : Console) : (outcome x c).2.world = c.world :=
  congrArg Prod.fst (tells c).2

theorem Tells.alike {x y : Cli Unit} (tells : Tells x) (tells' : Tells y) : Alike x y := by
  intro c c' same
  rw [(tells c).1, (tells c).2, (tells' c').1, (tells' c').2]
  exact ⟨rfl, same⟩

theorem Tells.bind {x y : Cli Unit} (first : Tells x) (next : Tells y) : Tells (x >>= fun _ => y) := by
  intro c
  obtain ⟨answer, left⟩ := first c
  rw [outcome_bind]
  rcases run : outcome x c with ⟨e | a, d⟩ <;> rw [run] at answer left
  · contradiction
  · exact ⟨(next d).1, (next d).2.trans left⟩

theorem Tells.ite {x y : Cli Unit} {p : Prop} [Decidable p] (yes : Tells x) (no : Tells y) :
    Tells (if p then x else y) := by
  split
  · exact yes
  · exact no

theorem Tells.forM {f : α → Cli Unit} (each : ∀ a, Tells (f a)) (items : List α) : Tells (items.forM f) := by
  induction items with
  | nil => exact fun c => ⟨rfl, rfl⟩
  | cons a rest ih => exact .bind (each a) ih

theorem tells_pure : Tells (pure ()) := fun _ => ⟨rfl, rfl⟩

theorem tells_print (text : String) : Tells (print text) := fun _ => ⟨rfl, rfl⟩

theorem tells_say (line : String) : Tells (say line) := tells_print _

theorem tells_complain (line : String) : Tells (complain line) := fun _ => ⟨rfl, rfl⟩

/-- Lines on the first channel, after what was said before. -/
def Console.telling (c : Console) (w : World) (lines : List String) : Console :=
  { c with world := w, output := (lines.map (· ++ "\n")).reverse ++ c.output }

def reported (setting : Setting) (data : Data) (lines : List String) : List String :=
  if setting.json then [Json.prettyText data] else lines

theorem outcome_report (setting : Setting) (data : Data) (lines : List String) (c : Console) :
    outcome (report setting data lines) c = (.ok (), c.telling c.world (reported setting data lines)) := by
  have said (lines : List String) (c : Console) :
      outcome (lines.forM say) c = (.ok (), c.telling c.world lines) := by
    induction lines generalizing c with
    | nil => rfl
    | cons line rest ih =>
      have whole : outcome ((line :: rest).forM say) c = outcome (rest.forM say) (c.telling c.world [line]) := rfl
      rw [whole, ih]
      simp [Console.telling]
  rw [report, reported]
  cases setting.json
  · exact said lines c
  · rfl

theorem tells_report (setting : Setting) (data : Data) (lines : List String) :
    Tells (report setting data lines) :=
  .ite (tells_say _) (.forM tells_say lines)

theorem tells_reportSorted (setting : Setting) (data : Data) (lines : List String) :
    Tells (reportSorted setting data lines) := tells_report setting data.sorted lines

theorem tells_sayAtOnce (setting : Setting) (line : String) : Tells (sayAtOnce setting line) :=
  .ite tells_pure (tells_say line)

theorem tells_tellSynced (o : Managed.Outcome) : Tells (tellSynced o) := by
  refine .ite (.bind (tells_print _) (.bind (tells_complain _) ?_)) (.bind (.forM tells_say _) ?_) <;>
    exact .ite (tells_complain _) tells_pure

/-! ## Every command -/

/-- The same setting with another kind of report. -/
def Setting.reporting (setting : Setting) (json : Bool) : Setting := { setting with json }

section Commands

variable (setting : Setting) (json : Bool)

theorem alike_report (data : Data) (lines : List String) :
    Alike (report setting data lines) (report (setting.reporting json) data lines) :=
  (tells_report setting data lines).alike (tells_report _ data lines)

theorem alike_reportSorted (data : Data) (lines : List String) :
    Alike (reportSorted setting data lines) (reportSorted (setting.reporting json) data lines) :=
  alike_report setting json data.sorted lines

/-- The last step of a command that may still fail once it has reported. -/
theorem alike_failWhen (p : Prop) [Decidable p] (text : String) :
    Alike (if p then fail text else pure () : Cli Unit) (if p then fail text else pure ()) :=
  .ite (.fail text) (.pure ())

theorem alike_prepareDirectory (path : Path) : Alike (prepareDirectory path) (prepareDirectory path) :=
  .bind alike_disk fun _ => .bind (alike_performFor _ _) fun _ => .bind (alike_perform _) fun _ => .pure _

theorem alike_prepareSettings : Alike (prepareSettings setting) (prepareSettings setting) := by
  refine .bind alike_disk fun _ => ?_
  exact .ite (.pure _) (.bind (alike_performFor _ _) fun _ => .pure _)

theorem alike_prepareInventory : Alike (prepareInventory setting) (prepareInventory setting) := by
  refine .bind (alike_openInventory setting) fun path => .bind alike_disk fun _ => .ite (.pure _) ?_
  exact .bind (alike_keepInventory path _) fun _ => .pure _

theorem alike_setUp : Alike (setUp setting) (setUp (setting.reporting json)) := by
  refine .bind (alike_prepareDirectory _) fun _ => .bind (alike_prepareDirectory _) fun _ => ?_
  refine .bind (alike_prepareSettings setting) fun _ => ?_
  exact .bind (alike_prepareInventory setting) fun _ => alike_reportSorted setting json _ _

theorem alike_status : Alike (status setting) (status (setting.reporting json)) := by
  refine .bind (alike_loadSettings setting) fun _ => .bind (alike_openInventory setting) fun _ => ?_
  refine .bind alike_inventory fun _ => .bind alike_disk fun _ => .bind alike_now fun _ => ?_
  exact alike_reportSorted setting json _ _

theorem alike_keyGenerate (wish : KeyWish) :
    Alike (keyGenerate setting wish) (keyGenerate (setting.reporting json) wish) := by
  refine .bind (alike_loadSettings setting) fun _ => .bind (alike_ofExcept _) fun _ => ?_
  exact .bind (alike_withInventory setting (alike_performNow _)) fun k => alike_report setting json _ _

theorem alike_keyImport (req : Lifecycle.ImportedKey) :
    Alike (keyImport setting req) (keyImport (setting.reporting json) req) :=
  .bind (alike_withInventory setting (alike_performNow _)) fun _ => alike_report setting json _ _

theorem alike_keyList : Alike (keyList setting) (keyList (setting.reporting json)) := by
  refine .bind (alike_loadSettings setting) fun _ => .bind (alike_openInventory setting) fun _ => ?_
  exact .bind alike_inventory fun _ => .bind alike_now fun _ => alike_report setting json _ _

theorem alike_keyShow (name : String) :
    Alike (keyShow setting name) (keyShow (setting.reporting json) name) := by
  refine .bind (alike_loadSettings setting) fun _ => .bind (alike_openInventory setting) fun _ => ?_
  refine .bind alike_inventory fun _ => .bind (alike_ofExcept _) fun _ => .bind alike_now fun _ => ?_
  exact alike_reportSorted setting json _ _

theorem alike_redeploy (timeoutSecs : Nat) (old new : String) (revokeOld : Bool) (host : String) :
    Alike (redeploy timeoutSecs old new revokeOld host) (redeploy timeoutSecs old new revokeOld host) := by
  refine .bind alike_now fun _ => .bind (alike_attempt _) fun deployed => ?_
  rcases deployed with e | _
  · exact .pure _
  · refine .ite (.pure _) (.bind (alike_attempt _) fun revoked => ?_)
    rcases revoked with e | _ <;> exact .pure _

theorem alike_startRotation (wish : RotationWish) :
    Alike (startRotation setting wish) (startRotation setting wish) := by
  refine .bind (alike_ofExcept _) fun _ => .bind (alike_loadSettings setting) fun _ => ?_
  refine .bind (alike_openInventory setting) fun path => .bind (alike_performNow _) fun _ => ?_
  exact .bind (alike_saveInventory path) fun _ => .pure _

theorem alike_redeployNext (u : RotationUnderWay) (revokeOld : Bool) (host : String) :
    Alike (redeployNext u revokeOld host) (redeployNext u revokeOld host) :=
  .bind (alike_redeploy _ _ _ _ _) fun _ => .bind (alike_saveInventory _) fun _ => .pure _

theorem alike_keyRotate (wish : RotationWish) :
    Alike (keyRotate setting wish) (keyRotate (setting.reporting json) wish) := by
  refine .bind (alike_startRotation setting wish) fun u => ?_
  refine .bind (.mapM (alike_redeployNext u _) _) fun results => ?_
  exact .bind (alike_reportSorted setting json _ _) fun _ => alike_failWhen _ _

theorem alike_keyRevoke (name : String) :
    Alike (keyRevoke setting name) (keyRevoke (setting.reporting json) name) :=
  .bind (alike_withInventory setting (alike_perform _)) fun _ => alike_reportSorted setting json _ _

theorem alike_keyExpire (name : String) (ttlDays : Option Nat) :
    Alike (keyExpire setting name ttlDays) (keyExpire (setting.reporting json) name ttlDays) :=
  .bind (alike_withInventory setting (alike_performNow _)) fun _ => alike_reportSorted setting json _ _

theorem alike_keyRemove (name : String) (force deleteFiles : Bool) :
    Alike (keyRemove setting name force deleteFiles)
      (keyRemove (setting.reporting json) name force deleteFiles) :=
  .bind (alike_withInventory setting (alike_perform _)) fun _ => alike_report setting json _ _

theorem alike_hostAdd (req : Remote.NewHost) :
    Alike (hostAdd setting req) (hostAdd (setting.reporting json) req) :=
  .bind (alike_withInventory setting (alike_performNow _)) fun _ => alike_report setting json _ _

theorem alike_hostUpdate (label : String) (change : Remote.HostChange) :
    Alike (hostUpdate setting label change) (hostUpdate (setting.reporting json) label change) :=
  .bind (alike_withInventory setting (alike_perform _)) fun _ => alike_report setting json _ _

theorem alike_hostRemove (label : String) :
    Alike (hostRemove setting label) (hostRemove (setting.reporting json) label) :=
  .bind (alike_withInventory setting (alike_perform _)) fun _ => alike_report setting json _ _

theorem alike_hostList : Alike (hostList setting) (hostList (setting.reporting json)) :=
  .bind (alike_openInventory setting) fun _ => .bind alike_inventory fun _ => alike_report setting json _ _

theorem alike_hostShow (label : String) :
    Alike (hostShow setting label) (hostShow (setting.reporting json) label) := by
  refine .bind (alike_openInventory setting) fun _ => .bind alike_inventory fun _ => ?_
  exact .bind (alike_ofExcept _) fun _ => alike_reportSorted setting json _ _

theorem alike_sayAtOnce (line : String) :
    Alike (sayAtOnce setting line) (sayAtOnce (setting.reporting json) line) :=
  (tells_sayAtOnce setting line).alike (tells_sayAtOnce _ line)

theorem alike_hostTest (label : Option String) :
    Alike (hostTest setting label) (hostTest (setting.reporting json) label) := by
  refine .bind (alike_loadSettings setting) fun _ => .bind (alike_openInventory setting) fun path => ?_
  refine .bind alike_inventory fun _ => .bind (.mapM (fun a => ?_) _) fun _ => ?_
  · exact .bind (alike_performNow _) fun _ => .bind (alike_sayAtOnce setting json _) fun _ => .pure _
  · refine .bind (alike_saveInventory path) fun _ => .bind (alike_report setting json _ _) fun _ => ?_
    exact alike_failWhen _ _

theorem alike_deploy (key : String) (hosts : List String) (manual : Bool) :
    Alike (deploy setting key hosts manual) (deploy (setting.reporting json) key hosts manual) := by
  refine .bind (alike_openInventory setting) fun path => .bind alike_inventory fun _ => ?_
  refine .bind (alike_ofExcept _) fun _ => .bind (.mapM (fun host => ?_) _) fun _ => ?_
  · refine .bind alike_now fun _ => .bind (alike_attempt _) fun _ => .bind (alike_saveInventory path) fun _ => ?_
    exact .bind (alike_sayAtOnce setting json _) fun _ => .pure _
  · exact .bind (alike_reportSorted setting json _ _) fun _ => alike_failWhen _ _

theorem alike_verify (key host : String) :
    Alike (verify setting key host) (verify (setting.reporting json) key host) := by
  refine .bind (alike_loadSettings setting) fun _ => .bind (alike_openInventory setting) fun path => ?_
  refine .bind (alike_performNow _) fun present => ?_
  refine .ite (.bind (alike_saveInventory path) fun _ => ?_) ?_ <;>
    exact .bind (alike_reportSorted setting json _ _) fun _ => alike_failWhen _ _

theorem alike_revoke (key host : String) :
    Alike (revoke setting key host) (revoke (setting.reporting json) key host) := by
  refine .bind (alike_loadSettings setting) fun _ => .bind (alike_openInventory setting) fun path => ?_
  refine .bind (alike_perform _) fun _ => .bind (alike_saveInventory path) fun _ => ?_
  exact alike_reportSorted setting json _ _

theorem alike_audit (strict noFiles : Bool) :
    Alike (audit setting strict noFiles) (audit (setting.reporting json) strict noFiles) := by
  refine .bind (alike_loadSettings setting) fun _ => .bind (alike_openInventory setting) fun _ => ?_
  refine .bind alike_disk fun _ => .bind alike_inventory fun _ => .bind alike_now fun _ => ?_
  exact .bind (alike_report setting json _ _) fun _ => alike_failWhen _ _

theorem alike_configShow : Alike (configShow setting) (configShow (setting.reporting json)) := by
  refine .bind (alike_loadSettings setting) fun settings => .bind (alike_ofExcept _) fun path => ?_
  have told (kind : Bool) (data : Data) : Tells (if kind then say (Json.prettyText data) else do
      print settings.text
      say ("# ssh_config in effect: " ++ path)) :=
    .ite (tells_say _) (.bind (tells_print _) (tells_say _))
  exact (told setting.json _).alike (told json _)

theorem alike_configValidate :
    Alike (configValidate setting) (configValidate (setting.reporting json)) :=
  .bind (alike_loadSettings setting) fun _ =>
    .bind (alike_reportSorted setting json _ _) fun _ => alike_failWhen _ _

theorem alike_configSet (field value : String) :
    Alike (configSet setting field value) (configSet (setting.reporting json) field value) := by
  refine .bind (alike_loadSettings setting) fun before => .bind (alike_ofExcept _) fun _ => ?_
  refine .bind (alike_performFor _ _) fun _ => .bind (alike_report setting json _ _) fun _ => ?_
  have told (kind : Bool) (settings : Settings) : Tells (if !kind then
      (settings.warnings.filter (·.level = .error)).forM fun w => complain ("[error] " ++ w.message)
    else pure ()) := .ite (.forM (fun _ => tells_complain _) _) tells_pure
  exact (told setting.json _).alike (told json _)

theorem alike_syncConfig (dryRun remove : Bool) :
    Alike (syncConfig setting dryRun remove) (syncConfig (setting.reporting json) dryRun remove) := by
  refine .bind (alike_loadSettings setting) fun _ => .bind (alike_ofExcept _) fun path => ?_
  have told (o : Managed.Outcome) (kind : Bool) :
      Tells (if kind then say (Json.prettyText o.data) else tellSynced o) :=
    .ite (tells_say _) (tells_tellSynced o)
  have last (o : Managed.Outcome) := (told o setting.json).alike (told o json)
  refine .ite (.bind (alike_performFor _ _) last) ?_
  exact .bind (alike_openInventory setting) fun _ => .bind (alike_performFor _ _) last

theorem alike_carryOut (command : Command) :
    Alike (carryOut setting command) (carryOut (setting.reporting json) command) := by
  cases command with
  | init => exact alike_setUp setting json
  | status => exact alike_status setting json
  | keyGenerate wish => exact alike_keyGenerate setting json wish
  | keyImport req => exact alike_keyImport setting json req
  | keyList => exact alike_keyList setting json
  | keyShow name => exact alike_keyShow setting json name
  | keyRotate wish => exact alike_keyRotate setting json wish
  | keyRevoke name => exact alike_keyRevoke setting json name
  | keyExpire name ttlDays => exact alike_keyExpire setting json name ttlDays
  | keyRemove name force deleteFiles => exact alike_keyRemove setting json name force deleteFiles
  | hostAdd req => exact alike_hostAdd setting json req
  | hostList => exact alike_hostList setting json
  | hostShow label => exact alike_hostShow setting json label
  | hostUpdate label change => exact alike_hostUpdate setting json label change
  | hostRemove label => exact alike_hostRemove setting json label
  | hostTest label => exact alike_hostTest setting json label
  | deploy key hosts manual => exact alike_deploy setting json key hosts manual
  | verify key host => exact alike_verify setting json key host
  | revoke key host => exact alike_revoke setting json key host
  | audit strict noFiles => exact alike_audit setting json strict noFiles
  | configShow => exact alike_configShow setting json
  | configValidate => exact alike_configValidate setting json
  | configSet field value => exact alike_configSet setting json field value
  | syncConfig dryRun remove => exact alike_syncConfig setting json dryRun remove

end Commands

/-- What a command starts from: a world in which no inventory was read yet. -/
def Console.start (world : World) (clock : Time.Clock) : Console :=
  ⟨{ world with inventory := .empty }, clock, [], []⟩

/-- An invocation run to its end. -/
def concludeIn (env : Environment) (clock : Time.Clock) (inv : Invocation) (world : World) : Result × World :=
  let (ending, console) := outcome (runInvocation env inv) (.start world clock)
  let (status, last) := conclude ending
  (⟨status, String.join console.output.reverse, String.join (console.complaints.reverse ++ last)⟩,
    console.world)

theorem run_eq (env : Environment) (clock : Time.Clock) (tokens : List String) (world : World) :
    run env clock tokens world = match Invocation.read env tokens with
      | .error stop => (stopped stop, world)
      | .ok inv => concludeIn env clock inv world := by
  unfold run
  cases Invocation.read env tokens <;> rfl

/-- The command of a line run with the report as data or in lines, whichever the line asks for. -/
def runReporting (json : Bool) (env : Environment) (clock : Time.Clock) (tokens : List String)
    (world : World) : Result × World :=
  match Invocation.read env tokens with
  | .error stop => (stopped stop, world)
  | .ok inv => concludeIn env clock { inv with json } world

theorem alike_runInvocation (env : Environment) (inv : Invocation) (json : Bool) :
    Alike (runInvocation env inv) (runInvocation env { inv with json }) := by
  unfold runInvocation settingOf
  cases inv.vaultDir.or (env.home.map Layout.defaultVault) with
  | none => exact fun _ _ same => ⟨rfl, same⟩
  | some vault => exact alike_carryOut _ json inv.command

/-- The kind of the report decides what is said only: with either kind a line ends with the same status, and
leaves the same files, the same calls of tools and the same inventory behind, whatever the clock shows. -/
theorem same_work_of_either_report (env : Environment) (clock : Time.Clock) (tokens : List String)
    (world : World) (json : Bool) :
    (runReporting json env clock tokens world).1.status = (run env clock tokens world).1.status ∧
      (runReporting json env clock tokens world).2 = (run env clock tokens world).2 := by
  rw [run_eq, runReporting]
  cases Invocation.read env tokens with
  | error stop => exact ⟨rfl, rfl⟩
  | ok inv =>
    obtain ⟨answer, left⟩ := alike_runInvocation env inv json (.start world clock) (.start world clock) rfl
    exact ⟨congrArg (fun ending => (conclude ending).1) answer.symm, (Prod.mk.inj left).1.symm⟩

end Keyring.CommandLine

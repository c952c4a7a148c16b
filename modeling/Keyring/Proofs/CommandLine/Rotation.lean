import Keyring.CommandLine.Keys
import Keyring.Proofs.CommandLine.Console
import Keyring.Proofs.Inventory.KeySteps

/-!
# A rotation carried to the hosts

A replaced key is followed host by host: the new key is put there, and only then is the
old one taken off. After the rotation and after each host the inventory is saved; in all
of these states each host that the old key was on has the one key or the other
(`rotation_keeps_access`).
-/

namespace Keyring.CommandLine

open Inventory Lifecycle Remote

/-- The tool that puts keys on hosts said that the key is there. -/
def Installed (k : Key) (h : Host) (log : List (Call × Reply)) : Prop :=
  ∃ auth output made, (installCall k h auth, .ran output made) ∈ log ∧ output.success = true

/-- Each login takes the old key off a host on record, on which the new one was put before. -/
def RemovesAfterInstall (inv : Inventory) (old new : Key) (log : List (Call × Reply)) : Prop :=
  ∀ front call reply back, log = front ++ (call, reply) :: back → call.program = Call.login →
    ∃ h ∈ inv.hosts, (∃ timeoutSecs, call = removalCall inv h timeoutSecs old) ∧ Installed new h front

variable {inv : Inventory} {old new k : Key} {h : Host} {log more : List (Call × Reply)}

theorem Installed.mono (installed : Installed k h log) (among : ∀ entry ∈ log, entry ∈ more) :
    Installed k h more := by
  obtain ⟨auth, output, made, inside, good⟩ := installed
  exact ⟨auth, output, made, among _ inside, good⟩

theorem RemovesAfterInstall.append (first : RemovesAfterInstall inv old new log)
    (second : ∀ front call reply back, more = front ++ (call, reply) :: back → call.program = Call.login →
      ∃ h ∈ inv.hosts, (∃ timeoutSecs, call = removalCall inv h timeoutSecs old) ∧
        Installed new h (log ++ front)) : RemovesAfterInstall inv old new (log ++ more) := by
  intro front call reply back split login
  rcases List.append_eq_append_iff.mp split with ⟨between, rfl, rest⟩ | ⟨between, logIs, rest⟩
  · exact second between call reply back rest login
  · cases between with
    | nil =>
      obtain ⟨h, known, removal, installed⟩ := second [] call reply back (by simpa using rest.symm) login
      rw [List.append_nil] at logIs installed
      exact ⟨h, known, removal, logIs ▸ installed⟩
    | cons entry between =>
      obtain ⟨rfl, _⟩ := List.cons.inj rest
      exact first front call reply between logIs login

theorem RemovesAfterInstall.append_of_ne (first : RemovesAfterInstall inv old new log)
    (others : ∀ entry ∈ more, entry.1.program ≠ Call.login) :
    RemovesAfterInstall inv old new (log ++ more) := by
  refine first.append fun front call reply back split login => absurd login (others (call, reply) ?_)
  rw [split]
  exact List.mem_append_right _ (List.mem_cons_self ..)

/-! ## A replaced key -/

/-- A key on record and the one that follows it. -/
structure Replaced (inv : Inventory) (old new : Key) : Prop where
  apart : new.name ≠ old.name
  oldFound : ∃ k, inv.findKey? old.name = some k ∧ k.blob = old.blob
  newFound : inv.findKey? new.name = some new

/-- What holds while the new key is put on one host after the other: `inv` is the inventory after the
rotation, `hosts` are those that the old key was on. -/
structure Stage (start : World) (inv : Inventory) (old new : Key) (hosts : List String)
    (log : List (Call × Reply)) (w : World) : Prop where
  sameKeys : w.inventory.keys = inv.keys
  sameHosts : w.inventory.hosts = inv.hosts
  access : ∀ host ∈ hosts, (old.name, host) ∈ w.inventory.joints ∨ (new.name, host) ∈ w.inventory.joints
  said : Transcript start log w
  order : RemovesAfterInstall inv old new log

variable {start w w' : World} {hosts : List String} {host : String}

namespace Stage

theorem findKey?_eq (stage : Stage start inv old new hosts log w) (name : String) :
    w.inventory.findKey? name = inv.findKey? name := by
  unfold Inventory.findKey?
  rw [stage.sameKeys]

theorem host_eq (stage : Stage start inv old new hosts log w) (label : String) :
    w.inventory.host label = inv.host label := by
  unfold Inventory.host Inventory.findHost?
  rw [stage.sameHosts]

theorem removalCall_eq (stage : Stage start inv old new hosts log w) (h : Host) (timeoutSecs : Nat)
    (same : k.blob = old.blob) : removalCall w.inventory h timeoutSecs k = removalCall inv h timeoutSecs old := by
  have identity : w.inventory.identityOf? h = inv.identityOf? h := by
    unfold identityOf?
    congr 1
    funext name
    exact stage.findKey?_eq name
  unfold removalCall commandArgs loginArgs
  rw [identity, same]

/-- Where the inventory is left alone, only the calls are more. -/
theorem of_same (stage : Stage start inv old new hosts log w) (same : w'.inventory = w.inventory)
    (said : Transcript w more w') (order : RemovesAfterInstall inv old new (log ++ more)) :
    Stage start inv old new hosts (log ++ more) w' := by
  refine ⟨?_, ?_, ?_, stage.said.append said, order⟩
  · rw [same, stage.sameKeys]
  · rw [same, stage.sameHosts]
  · rw [same]
    exact stage.access

/-- Where only deployments are changed, access must be kept. -/
theorem of_deployments (stage : Stage start inv old new hosts log w) {deployments : List Deployment}
    (only : w'.inventory = { w.inventory with deployments := deployments })
    (access : ∀ host ∈ hosts, (old.name, host) ∈ w'.inventory.joints ∨ (new.name, host) ∈ w'.inventory.joints)
    (said : Transcript w more w') (order : RemovesAfterInstall inv old new (log ++ more)) :
    Stage start inv old new hosts (log ++ more) w' := by
  refine ⟨?_, ?_, access, stage.said.append said, order⟩
  · rw [only, ← stage.sameKeys]
  · rw [only, ← stage.sameHosts]

theorem filesOnly (stage : Stage start inv old new hosts log w) (aside : FilesOnly w w') :
    Stage start inv old new hosts (log ++ []) w' := by
  refine stage.of_same aside.inventory aside.silent ?_
  rw [List.append_nil]
  exact stage.order

/-- A deployment of the new key takes no access away, and where it succeeds the key is on the host. -/
theorem deploy (stage : Stage start inv old new hosts log w) (replaced : Replaced inv old new)
    (host : String) (auth : Option String) (now : Time.Instant) :
    ∃ more, Stage start inv old new hosts (log ++ more) (outcome (Remote.deploy new.name host auth now) w).2 ∧
      ((outcome (Remote.deploy new.name host auth now) w).1 = .ok () →
        (new.name, host) ∈ (outcome (Remote.deploy new.name host auth now) w).2.inventory.joints ∧
          ∃ h, inv.host host = .ok h ∧ Installed new h (log ++ more)) := by
  obtain ⟨more, said, programs, done⟩ := deploy_transcript new.name host auth now w
  have committed := deploy_commits new.name host auth now w.inventory w rfl
  have order : RemovesAfterInstall inv old new (log ++ more) := by
    refine stage.order.append_of_ne fun entry inside => ?_
    rw [programs entry inside]
    decide
  refine ⟨more, ?_⟩
  rcases run : outcome (Remote.deploy new.name host auth now) w with ⟨e | u, w'⟩
  · rw [run] at said committed
    exact ⟨stage.of_same committed said order, nofun⟩
  · rw [run] at said committed done
    obtain ⟨_, recorded⟩ := committed
    obtain ⟨there, kept⟩ := joints_of_recordDeployment recorded
    obtain ⟨deployments, only⟩ := of_recordDeployment recorded
    obtain ⟨k, h, auth, output, made, active, known, rfl, good⟩ := done rfl
    have isNew : k = new := by
      have found := key_eq_ok_iff.mp (activeKey_eq_ok_iff.mp active).1
      rw [stage.findKey?_eq, replaced.newFound] at found
      exact (Option.some.inj found).symm
    subst isNew
    have access : ∀ label ∈ hosts,
        (old.name, label) ∈ w'.inventory.joints ∨ (k.name, label) ∈ w'.inventory.joints :=
      fun label among => (stage.access label among).imp (kept _) (kept _)
    refine ⟨stage.of_deployments only access said order, fun _ => ⟨there, h, ?_, ?_⟩⟩
    · rw [← stage.host_eq]
      exact known
    · exact ⟨auth, output, made, List.mem_append_right _ (List.mem_singleton.mpr rfl), good⟩

/-- The old key may be taken off a host where the new one is. -/
theorem revoke (stage : Stage start inv old new hosts log w) (replaced : Replaced inv old new)
    (there : (new.name, host) ∈ w.inventory.joints)
    (known : inv.host host = .ok h) (installed : Installed new h log) (timeoutSecs : Nat) :
    ∃ more, Stage start inv old new hosts (log ++ more) (outcome (Remote.revoke old.name host timeoutSecs) w).2 := by
  obtain ⟨more, said, removal⟩ := revoke_transcript old.name host timeoutSecs w
  have committed := revoke_commits old.name host timeoutSecs w.inventory w rfl
  have order : RemovesAfterInstall inv old new (log ++ more) := by
    refine stage.order.append fun front call reply back split _ => ?_
    have inside : (call, reply) ∈ more := by
      rw [split]
      exact List.mem_append_right _ (List.mem_cons_self ..)
    obtain ⟨_, k, h', keyKnown, hostKnown, isRemoval⟩ := removal _ inside
    rw [stage.host_eq, known] at hostKnown
    obtain rfl := Except.ok.inj hostKnown
    obtain ⟨oldRecord, found, sameBlob⟩ := replaced.oldFound
    have isOld : k = oldRecord := by
      have foundToo := key_eq_ok_iff.mp keyKnown
      rw [stage.findKey?_eq, found] at foundToo
      exact (Option.some.inj foundToo).symm
    refine ⟨h, (mem_of_host known).1, ⟨timeoutSecs, ?_⟩, installed.mono fun entry => List.mem_append_left _⟩
    exact isRemoval.trans (stage.removalCall_eq h timeoutSecs (isOld ▸ sameBlob))
  refine ⟨more, ?_⟩
  rcases run : outcome (Remote.revoke old.name host timeoutSecs) w with ⟨e | u, w'⟩
  · rw [run] at said committed
    exact stage.of_same committed said order
  · rw [run] at said committed
    obtain ⟨d, removed⟩ := committed
    have only := removeDeployment_eq_ok removed
    have newApart : ∀ label, (new.name, label) ≠ (old.name, host) := fun label same =>
      replaced.apart (Prod.ext_iff.mp same).1
    refine stage.of_deployments only (fun label among => ?_) said order
    -- on this host the new key is; elsewhere nothing was removed
    by_cases here : label = host
    · rw [here]
      exact .inr (joints_of_removeDeployment removed there (newApart host))
    · rcases stage.access label among with oldThere | newThere
      · have apart : (old.name, label) ≠ (old.name, host) := fun same => here (Prod.ext_iff.mp same).2
        exact .inl (joints_of_removeDeployment removed oldThere apart)
      · exact .inr (joints_of_removeDeployment removed newThere (newApart label))

end Stage

/-- What leads from one stage of a rotation to another. -/
def Advances (start : World) (inv : Inventory) (old new : Key) (hosts : List String) (w w' : World) : Prop :=
  ∀ log, Stage start inv old new hosts log w → ∃ more, Stage start inv old new hosts (log ++ more) w'

theorem Advances.refl (w : World) : Advances start inv old new hosts w w := fun log stage =>
  ⟨[], by rwa [List.append_nil]⟩

theorem Advances.trans {w'' : World} (first : Advances start inv old new hosts w w')
    (second : Advances start inv old new hosts w' w'') : Advances start inv old new hosts w w'' := by
  intro log stage
  obtain ⟨more, next⟩ := first log stage
  obtain ⟨rest, last⟩ := second _ next
  exact ⟨more ++ rest, by rwa [← List.append_assoc]⟩

theorem Advances.of_filesOnly (aside : FilesOnly w w') : Advances start inv old new hosts w w' :=
  fun _ stage => ⟨[], stage.filesOnly aside⟩

theorem movesWorld_redeploy (replaced : Replaced inv old new) (timeoutSecs : Nat) (revokeOld : Bool)
    (host : String) : MovesWorld (Advances start inv old new hosts)
      (redeploy timeoutSecs old.name new.name revokeOld host) := by
  intro c log stage
  obtain ⟨more, next, done⟩ := stage.deploy replaced host (some old.name) c.clock.now
  unfold redeploy
  rw [outcome_bind, outcome_now]
  dsimp only
  rw [outcome_bind, outcome_attempt]
  rcases run : outcome (Remote.deploy new.name host (some old.name) c.clock.now) c.world with ⟨e | u, w⟩
  · rw [run] at next
    refine ⟨more, ?_⟩
    dsimp only
    cases e.isPanic <;> exact next
  · rw [run] at next done
    obtain ⟨there, h, known, installed⟩ := done rfl
    cases revokeOld with
    | false => exact ⟨more, next⟩
    | true =>
      obtain ⟨rest, last⟩ := next.revoke replaced there known installed timeoutSecs
      refine ⟨more ++ rest, ?_⟩
      rw [← List.append_assoc]
      dsimp only
      simp only [Bool.not_true, Bool.false_eq_true, ↓reduceIte]
      rw [outcome_bind, outcome_attempt]
      rcases again : outcome (Remote.revoke old.name host timeoutSecs) w with ⟨e | u, w'⟩
      · rw [again] at last
        dsimp only
        cases e.isPanic <;> exact last
      · rw [again] at last
        exact last

/-- The key `old` replaced by `work` on the host `web`, where every tool ends with a status. -/
def redeployed (status : Int) : Console :=
  let reply : Reply := .ran ⟨some status, "", ""⟩ ⟨none, none⟩
  let world : World := { bareWorld linkedInventory with
    installed := [Call.keyInstaller, Call.login]
    usualReply := reply }
  (outcome (redeploy 10 "old" "work" true "web") ⟨world, .still ⟨⟨0, 0⟩, by decide⟩, [], []⟩).2

-- a key that could be put on the host takes the place of the old one
example : (redeployed 0).world.inventory.joints = [("work", "web")] ∧
    (redeployed 0).world.calls.map (·.program) = [Call.login, Call.keyInstaller] := by
  decide +kernel

-- one that could not leaves the old one where it is, and nobody logs in
example : (redeployed 1).world.inventory = linkedInventory ∧
    (redeployed 1).world.calls.map (·.program) = [Call.keyInstaller] := by
  decide +kernel

theorem movesWorld_redeployNext (replaced : Replaced inv old new)
    {u : RotationUnderWay} (revokeOld : Bool) (oldIs : u.outcome.old = old.name)
    (newIs : u.outcome.new = new) (host : String) :
    MovesWorld (Advances start inv old new hosts) (redeployNext u revokeOld host) := by
  unfold redeployNext
  rw [oldIs, newIs]
  have one : MovesWorld (Advances start inv old new hosts)
      (redeploy u.timeoutSecs old.name new.name revokeOld host) :=
    movesWorld_redeploy replaced u.timeoutSecs revokeOld host
  have saved : MovesWorld (Advances start inv old new hosts) (saveInventory u.path) := fun c =>
    .of_filesOnly (movesWorld_saveInventory u.path c)
  exact one.bind .trans fun r => saved.bind .trans fun _ => .pure .refl r

theorem joints_of_rotates {before : Inventory} {req : Rotation} {o : RotationOutcome}
    (rotated : Rotates before req o inv) : inv.joints = before.joints := by
  obtain ⟨old, made, mid, _, entered, _, _, rfl⟩ := rotated.succession
  have added : mid.joints = before.joints := by rw [entered.added]; rfl
  exact added

/-- After a rotation the old key is found, and the new one under another name. -/
theorem replaced_of_rotates {before : Inventory} {req : Rotation} {o : RotationOutcome}
    (rotated : Rotates before req o inv) :
    ∃ old, before.key req.name = .ok old ∧ o.old = old.name ∧ old.name = req.name ∧
      Replaced inv old o.new := by
  obtain ⟨old, made, mid, active, entered, oldIs, newIs, rfl⟩ := rotated.succession
  have known := (activeKey_eq_ok_iff.mp active).1
  have named : old.name = req.name := name_of_findKey? (key_eq_ok_iff.mp known)
  obtain ⟨apart, oldFound, newFound⟩ := entered.lookups active
  obtain ⟨oldThere, newThere⟩ := linkRotation_lookups apart oldFound newFound
  rw [newIs]
  exact ⟨old, known, oldIs, named, apart, ⟨followedBy made.name old, oldThere, rfl⟩, newThere⟩

/-! ## The command -/

variable {setting : Setting} {wish : RotationWish} {c : Console}

/-- Before any host is visited, no tool is called but the one that makes keys. -/
theorem movesWorld_startRotation (setting : Setting) (wish : RotationWish) :
    MovesWorld (CallsOnly Call.keyMaker) (startRotation setting wish) := by
  have refl : ∀ w, CallsOnly Call.keyMaker w w := fun w => ⟨[], .refl w, nofun⟩
  have quiet : ∀ {w w' : World}, Silent w w' → CallsOnly Call.keyMaker w w' := fun said => ⟨[], said, nofun⟩
  unfold startRotation
  refine MovesWorld.bind .trans (.of_still refl (still_ofExcept _)) fun algorithm => ?_
  refine MovesWorld.bind .trans (.of_still refl (still_loadSettings _)) fun settings => ?_
  refine MovesWorld.bind .trans (fun c => quiet (movesWorld_openInventory setting c)) fun path => ?_
  refine MovesWorld.bind .trans (movesWorld_performNow fun t => rotate_calls _ _ t) fun o => ?_
  refine MovesWorld.bind .trans (fun c => quiet (movesWorld_saveInventory path c).silent) fun _ => ?_
  exact .pure refl _

/-- The inventory that a command reads. -/
def inventoryRead (setting : Setting) (c : Console) : Inventory :=
  (outcome (openInventory setting) c).2.world.inventory

/-- What the start of the command makes of the inventory that it reads. -/
theorem startRotation_rotates (setting : Setting) (wish : RotationWish) (c : Console) :
    match outcome (startRotation setting wish) c with
    | (.ok u, c₁) => ∃ req : Rotation, req.name = wish.name ∧
        Rotates (inventoryRead setting c) req u.outcome c₁.world.inventory
    | (.error _, c₁) => c₁ = c ∨ c₁.world.inventory.joints = (inventoryRead setting c).joints := by
  unfold startRotation
  rw [outcome_bind, outcome_ofExcept]
  rcases wish.keyType.mapM Algorithm.ofText with e | algorithm
  · exact .inl rfl
  dsimp only [Except.mapError]
  rw [outcome_bind]
  have unmoved := still_loadSettings setting c
  rcases loaded : outcome (loadSettings setting) c with ⟨e | settings, c'⟩
  · rw [loaded] at unmoved
    exact .inl unmoved
  rw [loaded] at unmoved
  obtain rfl : c' = c := unmoved
  dsimp only
  rw [outcome_bind, inventoryRead]
  rcases outcome (openInventory setting) c' with ⟨e | path, c₀⟩
  · exact .inr rfl
  dsimp only
  rw [outcome_bind, outcome_performNow, outcome_perform]
  generalize asked : (⟨wish.name, wish.newName, algorithm, wish.bits, wish.ttlDays, wish.passphrase⟩ :
    Rotation) = req
  have committed := rotate_commits setting.vault req c₀.clock.now c₀.world.inventory c₀.world rfl
  rcases run : outcome (Lifecycle.rotate setting.vault req c₀.clock.now) c₀.world with ⟨e | o, w⟩
  · rw [run] at committed
    exact .inr (congrArg joints committed)
  · rw [run] at committed
    dsimp only
    rw [outcome_bind]
    have saved := (movesWorld_saveInventory path { c₀ with world := w, clock := c₀.clock.later }).inventory
    rcases kept : outcome (saveInventory path) { c₀ with world := w, clock := c₀.clock.later } with ⟨e | u, c₁⟩
    · rw [kept] at saved
      exact .inr ((congrArg joints saved).trans (joints_of_rotates committed))
    · rw [kept] at saved
      have same : c₁.world.inventory = w.inventory := saved
      refine ⟨req, by rw [← asked], ?_⟩
      rw [same]
      exact committed

/-- The hosts that the command visits. -/
def hostsToVisit (wish : RotationWish) (u : RotationUnderWay) : List String :=
  if wish.deploy then u.outcome.hostsToRedeploy else []

/-- The command up to a step: the rotation, and the new key put on the first hosts. -/
def rotateUpTo (setting : Setting) (wish : RotationWish) (n : Nat) :
    Cli (RotationUnderWay × List Redeployment) := do
  let u ← startRotation setting wish
  let results ← ((hostsToVisit wish u).take n).mapM (redeployNext u wish.revokeOld)
  return (u, results)

/-- What the command says at its end. -/
def tellRotation (setting : Setting) (wish : RotationWish) (u : RotationUnderWay)
    (results : List Redeployment) : Cli Unit := do
  let failed := results.countP (·.error.isSome)
  reportSorted setting
    (.record [("rotation", u.outcome.data), ("redeploy", .list (results.map Redeployment.data))])
    (rotationReport u.outcome wish.deploy results)
  if 0 < failed then fail s!"{failed} host(s) failed to redeploy"

/-- The command from a step on: the other hosts, and the report. -/
def rotateFrom (setting : Setting) (wish : RotationWish) (n : Nat)
    (done : RotationUnderWay × List Redeployment) : Cli Unit := do
  let more ← ((hostsToVisit wish done.1).drop n).mapM (redeployNext done.1 wish.revokeOld)
  tellRotation setting wish done.1 (done.2 ++ more)

/-- The command passes through the state after any number of hosts. -/
theorem keyRotate_eq (setting : Setting) (wish : RotationWish) (n : Nat) :
    keyRotate setting wish = rotateUpTo setting wish n >>= rotateFrom setting wish n := by
  have whole : keyRotate setting wish = startRotation setting wish >>= fun u =>
      (hostsToVisit wish u).mapM (redeployNext u wish.revokeOld) >>= tellRotation setting wish u := rfl
  rw [whole]
  unfold rotateUpTo rotateFrom
  simp only [bind_assoc, pure_bind]
  refine bind_congr fun u => ?_
  conv_lhs => rw [← List.take_append_drop n (hostsToVisit wish u), List.mapM_append]
  simp only [bind_assoc, pure_bind]

theorem world_tellRotation (setting : Setting) (wish : RotationWish) (u : RotationUnderWay)
    (results : List Redeployment) (c : Console) :
    (outcome (tellRotation setting wish u results) c).2.world = c.world := by
  have same : ∀ {w w' w'' : World}, w' = w → w'' = w' → w'' = w := fun first second => second.trans first
  refine MovesWorld.bind (R := fun w w' => w' = w) same (world_report setting _ _) (fun _ => ?_) c
  split
  · exact fun c => rfl
  · exact fun c => rfl

/-- Where the rotation is made, its hosts are visited next. -/
theorem outcome_rotateUpTo {c₁ : Console} {u : RotationUnderWay}
    (started : outcome (startRotation setting wish) c = (.ok u, c₁)) (n : Nat) :
    outcome (rotateUpTo setting wish n) c = outcome (do
      let results ← ((hostsToVisit wish u).take n).mapM (redeployNext u wish.revokeOld)
      return (u, results)) c₁ := by
  rw [rotateUpTo, outcome_bind, started]

/-- The command ends as it stands after the last host. -/
theorem exists_rotateUpTo (setting : Setting) (wish : RotationWish) (c : Console) :
    ∃ n, (outcome (keyRotate setting wish) c).2.world = (outcome (rotateUpTo setting wish n) c).2.world := by
  rcases started : outcome (startRotation setting wish) c with ⟨e | u, c₁⟩
  · refine ⟨0, ?_⟩
    rw [keyRotate, rotateUpTo, outcome_bind, started, outcome_bind, started]
  · refine ⟨(hostsToVisit wish u).length, ?_⟩
    rw [keyRotate_eq setting wish (hostsToVisit wish u).length, outcome_bind,
      outcome_rotateUpTo started, List.take_length, outcome_bind]
    rcases outcome ((hostsToVisit wish u).mapM (redeployNext u wish.revokeOld)) c₁ with
      ⟨e | results, c₂⟩
    · rfl
    · dsimp only [outcome_pure]
      rw [rotateFrom, List.drop_length]
      exact world_tellRotation setting wish u (results ++ []) c₂

theorem mem_joints_of_mem_hostNamesOf {name host : String} (member : host ∈ inv.hostNamesOf name) :
    (name, host) ∈ inv.joints := by
  obtain ⟨d, among, rfl⟩ := List.mem_map.mp member
  obtain ⟨known, isKey⟩ := List.mem_filter.mp among
  exact List.mem_map.mpr ⟨d, known, by rw [of_decide_eq_true isKey]⟩

/-- The command passes through the rotation and one host after the other. In each of these states, and
whatever the tools reply: each host that the old key was on has the old key or the new one on record, and
each login that was made took the old key off a host where the tool had put the new one. Where the rotation
is refused no host is reached, and what was deployed stays deployed. -/
theorem rotation_keeps_access (setting : Setting) (wish : RotationWish) (c : Console) :
    (∀ n, ∃ rest, keyRotate setting wish = rotateUpTo setting wish n >>= rest) ∧
      (∃ n, (outcome (keyRotate setting wish) c).2.world = (outcome (rotateUpTo setting wish n) c).2.world) ∧
      ∀ n, match outcome (startRotation setting wish) c, (outcome (rotateUpTo setting wish n) c).2 with
        | (.error _, _), c' => CallsOnly Call.keyMaker c.world c'.world ∧
            (c' = c ∨ c'.world.inventory.joints = (inventoryRead setting c).joints)
        | (.ok u, c₁), c' => ∃ old log, (inventoryRead setting c).key wish.name = .ok old ∧
            Transcript c.world log c'.world ∧
            RemovesAfterInstall c₁.world.inventory old u.outcome.new log ∧
            ∀ host ∈ (inventoryRead setting c).hostNamesOf wish.name,
              (wish.name, host) ∈ c'.world.inventory.joints ∨
                (u.outcome.new.name, host) ∈ c'.world.inventory.joints := by
  refine ⟨fun n => ⟨_, keyRotate_eq setting wish n⟩, exists_rotateUpTo setting wish c, fun n => ?_⟩
  have begun := startRotation_rotates setting wish c
  obtain ⟨log, said, only⟩ := movesWorld_startRotation setting wish c
  rcases started : outcome (startRotation setting wish) c with ⟨e | u, c₁⟩
  · rw [started] at begun said
    rw [rotateUpTo, outcome_bind, started]
    exact ⟨⟨log, said, only⟩, begun⟩
  · rw [started] at begun said
    obtain ⟨req, named, rotated⟩ := begun
    obtain ⟨old, known, oldIs, oldNamed, replaced⟩ := replaced_of_rotates rotated
    rw [named] at known oldNamed
    let hosts := (inventoryRead setting c).hostNamesOf wish.name
    have silent : RemovesAfterInstall c₁.world.inventory old u.outcome.new [] := by
      intro front call reply back split
      cases front <;> cases split
    have order : RemovesAfterInstall c₁.world.inventory old u.outcome.new log := by
      refine silent.append_of_ne fun entry inside => ?_
      rw [only entry inside]
      decide
    have first : Stage c.world c₁.world.inventory old u.outcome.new hosts log c₁.world := by
      refine ⟨rfl, rfl, fun host among => .inl ?_, said, order⟩
      rw [oldNamed, joints_of_rotates rotated]
      exact mem_joints_of_mem_hostNamesOf among
    have visits := MovesWorld.mapM (R := Advances c.world c₁.world.inventory old u.outcome.new hosts) .refl .trans
      (fun host => movesWorld_redeployNext replaced wish.revokeOld oldIs rfl host)
      ((hostsToVisit wish u).take n)
    obtain ⟨more, last⟩ := visits.bind .trans (fun results => .pure .refl (u, results)) c₁ log first
    rw [outcome_rotateUpTo started]
    refine ⟨old, log ++ more, known, last.said, last.order, fun host among => ?_⟩
    have kept := last.access host among
    rw [oldNamed] at kept
    exact kept

end Keyring.CommandLine

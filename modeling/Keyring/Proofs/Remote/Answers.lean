import Keyring.Proofs.Inventory.Edits
import Keyring.Proofs.Inventory.Lookup
import Keyring.Proofs.Operation.Effect
import Keyring.Proofs.Operation.Transcript

/-!
# Answers of hosts

A host is tested, given a key, asked for it and relieved of it in the same way: first everything
is looked up, then one tool is called once, and its end settles both the answer and what goes on
record. Nothing that follows the call can fail, so the record and the host agree.
-/

namespace Keyring

namespace Inventory

variable {α : Type} {fits : α → Bool} {items : List α} {a : α}

/-- The first item that fits gives its place to others. The items around it stay, in their order. -/
def GivesPlace (fits : α → Bool) (heirs : α → List α) (items items' : List α) : Prop :=
  ∃ front a back, items = front ++ a :: back ∧ (∀ b ∈ front, fits b = false) ∧
    fits a = true ∧ items' = front ++ heirs a ++ back

theorem changeFirst_append {change : α → α} {front back : List α} (before : ∀ b ∈ front, fits b = false)
    (fit : fits a = true) :
    changeFirst fits change (front ++ a :: back) = front ++ change a :: back := by
  induction front with
  | nil => simp [changeFirst, fit]
  | cons b rest ih =>
    have later := ih fun c inside => before c (List.mem_cons_of_mem b inside)
    simp [changeFirst, before b List.mem_cons_self, later]

theorem split_of_find? (found : items.find? fits = some a) :
    ∃ front back, items = front ++ a :: back ∧ (∀ b ∈ front, fits b = false) ∧ fits a = true := by
  obtain ⟨fit, front, back, rfl, before⟩ := List.find?_eq_some_iff_append.mp found
  exact ⟨front, back, rfl, fun b inside => by simpa using before b inside, fit⟩

theorem givesPlace_changeFirst (change : α → α) (found : items.find? fits = some a) :
    GivesPlace fits (fun b => [change b]) items (changeFirst fits change items) := by
  obtain ⟨front, back, rfl, before, fit⟩ := split_of_find? found
  refine ⟨front, a, back, rfl, before, fit, ?_⟩
  rw [changeFirst_append before fit, List.append_assoc, List.singleton_append]

theorem givesPlace_eraseP (found : items.find? fits = some a) :
    GivesPlace fits (fun _ => []) items (items.eraseP fits) := by
  obtain ⟨front, back, rfl, before, fit⟩ := split_of_find? found
  refine ⟨front, a, back, rfl, before, fit, ?_⟩
  rw [List.eraseP_append_right _ fun b inside => by simp [before b inside],
    List.eraseP_cons_of_pos fit, List.append_nil]

theorem deployment_eq_ok_iff {inv : Inventory} {key label : String} {d : Deployment} :
    inv.deployment key label = .ok d ↔ inv.deployment? key label = some d := by
  unfold deployment
  cases inv.deployment? key label with
  | none => simp
  | some found => simp

theorem joins_eq_true_iff {d : Deployment} {key host : String} :
    d.joins key host = true ↔ d.key = key ∧ d.host = host := by
  simp [Deployment.joins]

/-- The record of a key on a host is put where it was before, or else at the end. -/
theorem place_of_recordDeployment {inv inv' : Inventory} {key host : String} {method : DeployMethod}
    {now : Time.Instant} (recorded : inv.recordDeployment key host method now = .ok inv') :
    ∃ deployments, inv' = { inv with deployments := deployments } ∧
      (GivesPlace (·.joins key host) (fun _ => [⟨key, host, now, method, none⟩]) inv.deployments deployments ∨
        (∀ d ∈ inv.deployments, d.joins key host = false) ∧
          deployments = inv.deployments ++ [⟨key, host, now, method, none⟩]) := by
  obtain ⟨-, -, ⟨known, rfl⟩ | ⟨fresh, rfl⟩⟩ := recordDeployment_eq_ok recorded
  · refine ⟨_, rfl, .inl ?_⟩
    cases found : inv.deployment? key host with
    | none => exact absurd known (deployment?_eq_none_iff.mp found)
    | some d =>
      obtain ⟨front, first, back, split, before, joins, changed⟩ := givesPlace_changeFirst
        (fun d : Deployment => { d with deployedAt := now, method := method, verifiedAt := none }) found
      obtain ⟨rfl, rfl⟩ := joins_eq_true_iff.mp joins
      exact ⟨front, first, back, split, before, joins, changed⟩
  · refine ⟨_, rfl, .inr ⟨fun d inside => ?_, rfl⟩⟩
    rw [Bool.eq_false_iff]
    intro joins
    obtain ⟨rfl, rfl⟩ := joins_eq_true_iff.mp joins
    exact fresh (List.mem_map_of_mem inside)

end Inventory

/-- Why a tool that was called gives no output. -/
def Reply.failure? (program : String) : Reply → Option Error
  | .absent => some (.toolNotInstalled program)
  | .fails reason => some (.toolFailed program reason)
  | .ran _ _ => none

/-- Why a call is not made at all. -/
inductive World.Bars (w : World) (c : Call) : Error → Prop where
  | notInstalled (missing : c.program ∉ w.installed) : Bars w c (.toolNotInstalled c.program)
  | nul (holds : c.hasNul = true) (stopped : w.passesNul = false) :
      Bars w c (.toolFailed c.program Call.nulMessage)

variable {α β : Type} {w : World}

/-- A call that makes no key is barred, or it is made and fails, or it is made and has an output. -/
theorem Op.call_ends {c : Call} (noKey : c.madeKey? = none) (w : World) :
    (∃ e, w.Bars c e ∧ outcome (Op.call c.program c.args c.stdin) w = (.error e, w)) ∨
    (∃ e, w.reply.failure? c.program = some e ∧
      outcome (Op.call c.program c.args c.stdin) w = (.error e, w.called c)) ∨
    (∃ output made, w.reply = .ran output made ∧
      outcome (Op.call c.program c.args c.stdin) w = (.ok output, w.called c)) := by
  rw [outcome_call]
  by_cases missing : c.program ∈ w.installed
  · by_cases nul : (c.hasNul && !w.passesNul) = true
    · obtain ⟨holds, stopped⟩ : c.hasNul = true ∧ w.passesNul = false := by simpa using nul
      exact .inl ⟨_, .nul holds stopped, by simp [missing, nul]⟩
    · refine .inr ?_
      have reached : (!w.installed.contains c.program) = false := by simp [missing]
      simp only [reached, nul, ↓reduceIte, Bool.false_eq_true]
      cases ready : w.reply with
      | absent => exact .inl ⟨_, rfl, rfl⟩
      | fails reason => exact .inl ⟨_, rfl, rfl⟩
      | ran output made => exact .inr ⟨output, made, rfl, by simp [noKey]⟩
  · exact .inl ⟨_, .notInstalled missing, by simp [missing]⟩

/-- How work ends that looks up what to call and calls it once: `Settles` says what an output of the
tool comes to, as an answer and an inventory. Nothing but the inventory changes, and nothing but the
call is put among those made. -/
inductive Asked (call : Except Error Call) (Settles : Output → Except Error α → Inventory → Prop)
    (w : World) : Except Error α × World → Prop where
  /-- A look-up fails, and nothing is called. -/
  | refused {e : Error} (missing : call = .error e) : Asked call Settles w (.error e, w)
  | barred {c : Call} {e : Error} (known : call = .ok c) (bars : w.Bars c e) :
      Asked call Settles w (.error e, w)
  | failed {c : Call} {e : Error} (known : call = .ok c)
      (fails : w.reply.failure? c.program = some e) : Asked call Settles w (.error e, w.called c)
  | answered {c : Call} {output : Output} {made : KeyFiles} {result : Except Error α} {inv : Inventory}
      (known : call = .ok c) (ran : w.reply = .ran output made) (settled : Settles output result inv) :
      Asked call Settles w (result, { w.called c with inventory := inv })

namespace Asked

variable {Settles : Output → Except Error α → Inventory → Prop}

theorem inventory {call : Except Error Call} {f : Inventory → Op α}
    (next : Asked call Settles w (outcome (f w.inventory) w)) :
    Asked call Settles w (outcome (Op.inventory >>= f) w) := by
  rw [outcome_bind, Op.outcome_inventory]
  exact next

theorem lookup {r : Except Error β} {call : β → Except Error Call} {f : β → Op α}
    (next : ∀ b, r = .ok b → Asked (call b) Settles w (outcome (f b) w)) :
    Asked (r >>= call) Settles w (outcome (Op.ofExcept r >>= f) w) := by
  rw [outcome_bind, Op.outcome_ofExcept]
  cases found : r with
  | error e => exact .refused rfl
  | ok b => exact next b found

/-- Once the tool has run, all that is left is to say what its output comes to. -/
theorem after {c : Call} {f : Output → Op α} (noKey : c.madeKey? = none)
    (next : ∀ output, ∃ result inv, outcome (f output) (w.called c) =
      (result, { w.called c with inventory := inv }) ∧ Settles output result inv) :
    Asked (.ok c) Settles w (outcome (Op.call c.program c.args c.stdin >>= f) w) := by
  rw [outcome_bind]
  rcases Op.call_ends noKey w with ⟨e, bars, run⟩ | ⟨e, fails, run⟩ | ⟨output, made, ran, run⟩
  · rw [run]
    exact .barred rfl bars
  · rw [run]
    exact .failed rfl fails
  · obtain ⟨result, inv, settles, settled⟩ := next output
    rw [run]
    dsimp only
    rw [settles]
    exact .answered rfl ran settled

end Asked

namespace Remote

open Time Inventory

variable (inv : Inventory) (key label : String) (now : Instant)

/-- The call that tries a host. -/
def trial (timeoutSecs : Nat) : Except Error Call := do
  let h ← inv.host label
  return ⟨Call.login, commandArgs inv h timeoutSecs "true", none⟩

/-- The call that gives a key to a host: the key is in use, and so is what to log in with on record. -/
def installation (auth : Option String) : Except Error Call := do
  let k ← inv.activeKey key
  let h ← inv.host label
  let a ← authKey inv h auth
  return installCall k h a

/-- The call that looks for a key on a host that it is deployed on. -/
def search (timeoutSecs : Nat) : Except Error Call := do
  let (k, h) ← deployed inv key label
  return ⟨Call.login, commandArgs inv h timeoutSecs (searchScript k.blob), none⟩

/-- The call that takes a key off a host that it is deployed on. -/
def removal (timeoutSecs : Nat) : Except Error Call := do
  let (k, h) ← deployed inv key label
  return removalCall inv h timeoutSecs k

/-- A trial is an outcome however it ended, and the three fields of the host on its last trial say
how. -/
def TrialSettles (output : Output) (result : Except Error ConnectionOutcome) (inv' : Inventory) : Prop :=
  ∃ error, error = (if output.status = some 0 then none else some output.errorMessage) ∧
    result = .ok ⟨label, error.isNone, error⟩ ∧
    ∃ hosts, inv' = { inv with hosts := hosts } ∧ GivesPlace (·.label = label) (fun h => [{ h with
      lastChecked := some now
      lastCheckOk := some error.isNone
      lastCheckError := error }]) inv.hosts hosts

/-- The key is on record as put on the host now, where it was on record before or else at the end. -/
def InstallationSettles (output : Output) (result : Except Error Unit) (inv' : Inventory) : Prop :=
  if output.status = some 0 then
    result = .ok () ∧ ∃ deployments, inv' = { inv with deployments := deployments } ∧
      (GivesPlace (·.joins key label) (fun _ => [⟨key, label, now, .copied, none⟩]) inv.deployments
          deployments ∨
        (∀ d ∈ inv.deployments, d.joins key label = false) ∧
          deployments = inv.deployments ++ [⟨key, label, now, .copied, none⟩])
  else result = .error (.deployFailed s!"{key} → {label}: {output.errorMessage}") ∧ inv' = inv

/-- A key found is verified now, and one not found stays on record as it was. -/
def SearchSettles (output : Output) (result : Except Error Bool) (inv' : Inventory) : Prop :=
  if output.status = some 0 then
    result = .ok true ∧ ∃ deployments, inv' = { inv with deployments := deployments } ∧
      GivesPlace (·.joins key label) (fun d => [{ d with verifiedAt := some now }]) inv.deployments
        deployments
  else if output.status = some 1 then result = .ok false ∧ inv' = inv
  else result = .error (.toolFailed Call.login output.errorMessage) ∧ inv' = inv

/-- The deployment is off the record if the key is off the host. -/
def RemovalSettles (output : Output) (result : Except Error Unit) (inv' : Inventory) : Prop :=
  if output.status = some 0 then
    result = .ok () ∧ ∃ deployments, inv' = { inv with deployments := deployments } ∧
      GivesPlace (·.joins key label) (fun _ => []) inv.deployments deployments
  else result = .error (.revokeFailed s!"{key} ← {label}: {output.errorMessage}") ∧ inv' = inv

theorem madeKey?_of_ne {program : String} {args : List String} {stdin : Option String}
    (other : program ≠ Call.keyMaker) : (Call.mk program args stdin).madeKey? = none := by
  simp [Call.madeKey?, other]

theorem outcome_edit_of_ok {work : InventoryM Unit} {w : World} {inv' : Inventory} (atomic : Atomic work)
    (changed : work.changed w.inventory = .ok inv') :
    outcome (Op.edit work) w = (.ok (), { w with inventory := inv' }) := by
  rw [Op.outcome_edit_changed atomic, changed]

variable {inv key label}

/-- The host that was tried is there to be changed. -/
theorem trialSettles_recordCheck {h : Host} (found : inv.host label = .ok h) (output : Output)
    {error : Option String} (told : error = if output.success then none else some output.errorMessage) :
    TrialSettles inv label now output (.ok ⟨label, error.isNone, error⟩)
      (recordCheck inv label error now) := by
  refine ⟨error, ?_, rfl, _, rfl, ?_⟩
  · rw [told]
    simp [Output.success]
  · exact givesPlace_changeFirst _ (host_eq_ok_iff.mp found)

theorem exists_recordDeployment (method : DeployMethod) {k : Key} {h : Host} (keyKnown : inv.key key = .ok k)
    (hostKnown : inv.host label = .ok h) : ∃ inv', inv.recordDeployment key label method now = .ok inv' := by
  rw [recordDeployment_eq, keyKnown, hostKnown]
  dsimp only
  split <;> exact ⟨_, rfl⟩

theorem markVerified_settles {d : Deployment} (joined : inv.deployment key label = .ok d) :
    ∃ deployments, inv.markVerified key label now = .ok { inv with deployments := deployments } ∧
      GivesPlace (·.joins key label) (fun d => [{ d with verifiedAt := some now }]) inv.deployments
        deployments := by
  refine ⟨_, ?_, givesPlace_changeFirst _ (deployment_eq_ok_iff.mp joined)⟩
  rw [markVerified_eq, joined]
  rfl

theorem removeDeployment_settles {d : Deployment} (joined : inv.deployment key label = .ok d) :
    ∃ deployments, inv.removeDeployment key label = .ok (d, { inv with deployments := deployments }) ∧
      GivesPlace (·.joins key label) (fun _ => []) inv.deployments deployments := by
  refine ⟨_, ?_, givesPlace_eraseP (deployment_eq_ok_iff.mp joined)⟩
  rw [removeDeployment_eq, joined]

theorem deployment_of_deployed {k : Key} {h : Host} (found : deployed inv key label = .ok (k, h)) :
    ∃ d, inv.deployment key label = .ok d := by
  unfold deployed at found
  cases keyKnown : inv.key key with
  | error e => simp [keyKnown, bind, Except.bind] at found
  | ok k' =>
  cases hostKnown : inv.host label with
  | error e => simp [keyKnown, hostKnown, bind, Except.bind] at found
  | ok h' =>
  cases joined : inv.deployment key label with
  | error e => simp [keyKnown, hostKnown, joined, bind, Except.bind] at found
  | ok d => exact ⟨d, rfl⟩

theorem asked_testConnection (label : String) (timeoutSecs : Nat) (w : World) :
    Asked (trial w.inventory label timeoutSecs) (TrialSettles w.inventory label now) w
      (outcome (testConnection label timeoutSecs now) w) := by
  refine .inventory (.lookup fun h found => .after (madeKey?_of_ne (by decide)) fun output => ?_)
  refine ⟨_, _, ?_, trialSettles_recordCheck now found output rfl⟩
  rw [outcome_bind, outcome_recordCheck]
  simp only [World.called, found]
  rfl

theorem asked_deploy (key label : String) (auth : Option String) (w : World) :
    Asked (installation w.inventory key label auth) (InstallationSettles w.inventory key label now) w
      (outcome (deploy key label auth now) w) := by
  refine .inventory (.lookup fun k active => .lookup fun h found => .lookup fun a _ =>
    .after (madeKey?_of_ne (by decide)) fun output => ?_)
  by_cases good : output.status = some 0
  · obtain ⟨_, recorded⟩ := exists_recordDeployment now .copied (activeKey_eq_ok_iff.mp active).1 found
    obtain ⟨deployments, rfl, settled⟩ := place_of_recordDeployment recorded
    refine ⟨.ok (), { w.inventory with deployments := deployments }, ?_, ?_⟩
    · simp only [Output.success, good, decide_true, Bool.not_true, Bool.false_eq_true, ↓reduceIte]
      exact outcome_edit_of_ok (InventoryM.atomic_recordDeployment _ _ _ _) recorded
    · rw [InstallationSettles, if_pos good]
      exact ⟨rfl, deployments, rfl, settled⟩
  · refine ⟨.error (.deployFailed s!"{key} → {label}: {output.errorMessage}"), w.inventory, ?_, ?_⟩
    · simp only [Output.success, good, decide_false, Bool.not_false, ↓reduceIte]
      rfl
    · rw [InstallationSettles, if_neg good]
      exact ⟨rfl, rfl⟩

theorem asked_verify (key label : String) (timeoutSecs : Nat) (w : World) :
    Asked (search w.inventory key label timeoutSecs) (SearchSettles w.inventory key label now) w
      (outcome (verify key label timeoutSecs now) w) := by
  refine .inventory (.lookup fun (k, h) found => .after (madeKey?_of_ne (by decide)) fun output => ?_)
  obtain ⟨d, joined⟩ := deployment_of_deployed found
  by_cases zero : output.status = some 0
  · obtain ⟨deployments, marked, settled⟩ := markVerified_settles now joined
    refine ⟨.ok true, { w.inventory with deployments := deployments }, ?_, ?_⟩
    · simp only [zero]
      rw [outcome_bind, outcome_edit_of_ok (w := w.called _) (InventoryM.atomic_markVerified _ _ _) marked]
      rfl
    · rw [SearchSettles, if_pos zero]
      exact ⟨rfl, deployments, rfl, settled⟩
  by_cases one : output.status = some 1
  · refine ⟨.ok false, w.inventory, ?_, ?_⟩
    · simp only [one]
      rfl
    · rw [SearchSettles, if_neg zero, if_pos one]
      exact ⟨rfl, rfl⟩
  · refine ⟨.error (.toolFailed Call.login output.errorMessage), w.inventory, ?_, ?_⟩
    · dsimp only
      split
      · contradiction
      · contradiction
      · rfl
    · rw [SearchSettles, if_neg zero, if_neg one]
      exact ⟨rfl, rfl⟩

theorem asked_revoke (key label : String) (timeoutSecs : Nat) (w : World) :
    Asked (removal w.inventory key label timeoutSecs) (RemovalSettles w.inventory key label) w
      (outcome (revoke key label timeoutSecs) w) := by
  refine .inventory (.lookup fun (k, h) found => .after (madeKey?_of_ne (by decide)) fun output => ?_)
  obtain ⟨d, joined⟩ := deployment_of_deployed found
  by_cases good : output.status = some 0
  · obtain ⟨deployments, removed, settled⟩ := removeDeployment_settles joined
    refine ⟨.ok (), { w.inventory with deployments := deployments }, ?_, ?_⟩
    · simp only [Output.success, good, decide_true, Bool.not_true, Bool.false_eq_true, ↓reduceIte]
      rw [outcome_bind, Op.outcome_edit_made (InventoryM.atomic_removeDeployment _ _), ← removeDeployment]
      simp only [World.called, removed]
      rfl
    · rw [RemovalSettles, if_pos good]
      exact ⟨rfl, deployments, rfl, settled⟩
  · refine ⟨.error (.revokeFailed s!"{key} ← {label}: {output.errorMessage}"), w.inventory, ?_, ?_⟩
    · simp only [Output.success, good, decide_false, Bool.not_false, ↓reduceIte]
      rfl
    · rw [RemovalSettles, if_neg good]
      exact ⟨rfl, rfl⟩

/-- The record follows the hosts: each way to ask a host calls one tool once when everything that it
needs was found, and else none, and what is put on record is settled by how that call ended. -/
theorem record_follows_hosts (w : World) (key label : String) (auth : Option String) (timeoutSecs : Nat)
    (now : Instant) :
    Asked (trial w.inventory label timeoutSecs) (TrialSettles w.inventory label now) w
      (outcome (testConnection label timeoutSecs now) w) ∧
    Asked (installation w.inventory key label auth) (InstallationSettles w.inventory key label now) w
      (outcome (deploy key label auth now) w) ∧
    Asked (search w.inventory key label timeoutSecs) (SearchSettles w.inventory key label now) w
      (outcome (verify key label timeoutSecs now) w) ∧
    Asked (removal w.inventory key label timeoutSecs) (RemovalSettles w.inventory key label) w
      (outcome (revoke key label timeoutSecs) w) :=
  ⟨asked_testConnection now label timeoutSecs w, asked_deploy now key label auth w,
    asked_verify now key label timeoutSecs w, asked_revoke key label timeoutSecs w⟩

end Remote

end Keyring

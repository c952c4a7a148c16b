import Keyring.Proofs.CommandLine.Saving
import Keyring.Proofs.Inventory.Deployments

/-!
# A key carried to many hosts

Hosts are visited one after the other, and each on its own: whatever became of the ones before,
the key is put on the next, and what is on record is saved. One visit keeps what is known of those
before it (`Underway`), and so the command keeps it for any row of hosts (`deploy_host_by_host`).
-/

namespace Keyring.CommandLine

open Inventory Remote Time

/-- A visit to a host: what the clock showed at its beginning, the calls that were made for it with their
replies, and the error if the key did not come there. -/
structure Errand where
  host : String
  time : Instant
  log : List (Call × Reply)
  error : Option Error

namespace Errand

def answer (v : Errand) : Except Error Unit :=
  match v.error with
  | none => .ok ()
  | some e => .error e

def result (v : Errand) : DeployResult := ⟨v.host, v.error.map Error.message⟩

end Errand

/-- The hosts that the key has come to, each time with the time. -/
def arrivals (errands : List Errand) : List Arrival :=
  (errands.filter (·.error.isNone)).map fun v => ⟨v.host, v.time⟩

/-- How a key is said to have come to a host. -/
def methodOf (manual : Bool) : DeployMethod := if manual then .manual else .copied

/-- The ways in which an errand can go. It is settled by what is on record, by the tools that can be found and by
the reply that is next; no other errand has a part in it. -/
inductive Goes (inv : Inventory) (w : World) (key : String) : Bool → Errand → Prop
  | unknown {manual : Bool} {host : String} {t : Instant} {e : Error} : inv.host host = .error e →
      Goes inv w key manual ⟨host, t, [], some e⟩
  | byHand {host : String} {t : Instant} {h : Host} : inv.host host = .ok h →
      Goes inv w key true ⟨host, t, [], none⟩
  | barred {host : String} {t : Instant} {c : Call} {e : Error} : installation inv key host none = .ok c →
      w.Bars c e → Goes inv w key false ⟨host, t, [], some e⟩
  /-- The tool that was called has no output. -/
  | failed {host : String} {t : Instant} {c : Call} {reply : Reply} {e : Error} :
      installation inv key host none = .ok c → reply.failure? c.program = some e →
      Goes inv w key false ⟨host, t, [(c, reply)], some e⟩
  /-- The tool says that it did not succeed. -/
  | refused {host : String} {t : Instant} {c : Call} {output : Output} {made : KeyFiles} :
      installation inv key host none = .ok c → output.status ≠ some 0 →
      Goes inv w key false ⟨host, t, [(c, .ran output made)],
        some (.deployFailed s!"{key} → {host}: {output.errorMessage}")⟩
  | installed {host : String} {t : Instant} {c : Call} {output : Output} {made : KeyFiles} :
      installation inv key host none = .ok c → output.status = some 0 →
      Goes inv w key false ⟨host, t, [(c, .ran output made)], none⟩

variable {inv : Inventory} {w w' start : World} {key host : String} {k : Key} {manual : Bool} {v : Errand}
  {setting : Setting} {path : Path} {errands : List Errand} {c : Console} {clock clock' : Clock} {t : Instant}

theorem Goes.isPanic_eq_false {e : Error} (goes : Goes inv w key manual v) (failed : v.error = some e) :
    e.isPanic = false := by
  cases goes with
  | byHand => cases failed
  | installed => cases failed
  | refused => exact Option.some.inj failed ▸ rfl
  | unknown missing =>
    rw [Option.some.inj failed, Inventory.host] at missing
    split at missing <;> cases missing
    rfl
  | barred _ bars =>
    rw [Option.some.inj failed] at bars
    cases bars <;> rfl
  | @failed _ _ _ reply _ _ fails =>
    rw [Option.some.inj failed] at fails
    cases reply <;> cases fails <;> rfl

/-- The errands of an inventory are not settled by its deployments, nor by the other parts of the world. -/
theorem Goes.of_deployments {deployments : List Deployment}
    (goes : Goes { inv with deployments := deployments } w key manual v) (tools : w.installed = start.installed)
    (nul : w.passesNul = start.passesNul) : Goes inv start key manual v := by
  cases goes with
  | unknown missing => exact .unknown missing
  | byHand known => exact .byHand known
  | barred known bars =>
    refine .barred known ?_
    cases bars with
    | notInstalled missing => exact .notInstalled (tools ▸ missing)
    | nul holds stopped => exact .nul holds (nul ▸ stopped)
  | failed known fails => exact .failed known fails
  | refused known bad => exact .refused known bad
  | installed known good => exact .installed known good

/-- What an errand makes of the world: its calls are made, and if the key came to the host that goes on record. -/
structure Visits (key : String) (manual : Bool) (w : World) (v : Errand) (w' : World) : Prop where
  goes : Goes w.inventory w key manual v
  said : Transcript w v.log w'
  sameDisk : w'.disk = w.disk
  sameTools : w'.installed = w.installed
  sameNul : w'.passesNul = w.passesNul
  recorded : match v.error with
    | some _ => w'.inventory = w.inventory
    | none => w.inventory.recordDeployment key v.host (methodOf manual) v.time = .ok w'.inventory

/-- Where the key is in use, all that can be missing for a call is the host. -/
theorem host_of_installation {e : Error} (active : inv.activeKey key = .ok k)
    (missing : installation inv key host none = .error e) : inv.host host = .error e := by
  unfold installation at missing
  rw [active] at missing
  cases known : inv.host host with
  | error e' =>
    rw [known] at missing
    exact congrArg _ (Except.error.inj missing)
  | ok h =>
    rw [known] at missing
    cases missing

theorem visits_deploy (active : w.inventory.activeKey key = .ok k) (host : String) (t : Instant) :
    ∃ v w', v.host = host ∧ v.time = t ∧ outcome (Remote.deploy key host none t) w = (v.answer, w') ∧
      Visits key false w v w' := by
  have asked := asked_deploy t key host none w
  have committed := deploy_commits key host none t w.inventory w rfl
  generalize outcome (Remote.deploy key host none t) w = ending at asked committed
  cases asked with
  | refused missing =>
    exact ⟨⟨host, t, [], some _⟩, w, rfl, rfl, rfl, .unknown (host_of_installation active missing), .refl w,
      rfl, rfl, rfl, rfl⟩
  | barred known bars =>
    exact ⟨⟨host, t, [], some _⟩, w, rfl, rfl, rfl, .barred known bars, .refl w, rfl, rfl, rfl, rfl⟩
  | @failed call e known fails =>
    exact ⟨⟨host, t, [(call, w.reply)], some e⟩, _, rfl, rfl, rfl, .failed known fails, transcript_called w call,
      rfl, rfl, rfl, rfl⟩
  | @answered call output made result inv' known ran settled =>
    have said := transcript_called w call
    rw [ran] at said
    have kept : Transcript (w.called call) [] { w.called call with inventory := inv' } := .of_same rfl rfl rfl
    have told := said.append kept
    unfold InstallationSettles at settled
    split at settled
    · rename_i good
      obtain ⟨rfl, -⟩ := settled
      exact ⟨⟨host, t, [(call, .ran output made)], none⟩, _, rfl, rfl, rfl, .installed known good, told,
        rfl, rfl, rfl, committed.2⟩
    · rename_i bad
      obtain ⟨rfl, rfl⟩ := settled
      exact ⟨⟨host, t, [(call, .ran output made)], some _⟩, _, rfl, rfl, rfl, .refused known bad, told,
        rfl, rfl, rfl, rfl⟩

theorem visits_markDeployed (active : w.inventory.activeKey key = .ok k) (host : String) (t : Instant) :
    ∃ v w', v.host = host ∧ v.time = t ∧ outcome (markDeployed key host t) w = (v.answer, w') ∧
      Visits key true w v w' := by
  rw [Remote.outcome_markDeployed, active]
  have keyKnown := (activeKey_eq_ok_iff.mp active).1
  cases hostKnown : w.inventory.host host with
  | error e =>
    have missing : w.inventory.recordDeployment key host .manual t = .error e := by
      rw [recordDeployment_eq, keyKnown, hostKnown]
    rw [missing]
    exact ⟨⟨host, t, [], some e⟩, w, rfl, rfl, rfl, .unknown hostKnown, .refl w, rfl, rfl, rfl, rfl⟩
  | ok h =>
    obtain ⟨inv', recorded⟩ := exists_recordDeployment t .manual keyKnown hostKnown
    rw [recorded]
    exact ⟨⟨host, t, [], none⟩, { w with inventory := inv' }, rfl, rfl, rfl, .byHand hostKnown,
      .of_same rfl rfl rfl, rfl, rfl, rfl, recorded⟩

theorem visits_deployOne (manual : Bool) (active : w.inventory.activeKey key = .ok k) (host : String) (t : Instant) :
    ∃ v w', v.host = host ∧ v.time = t ∧ outcome (deployOne key manual host t) w = (v.answer, w') ∧
      Visits key manual w v w' := by
  cases manual with
  | true => exact visits_markDeployed active host t
  | false => exact visits_deploy active host t

/-! ## From host to host -/

/-- What the errands so far come to. Each had what the clock showed when it began for its time, and went its own
way; the tools were asked in the order of the hosts; the key is on record for the hosts that it has come to, since
the last time that it did, with nothing else changed; and what is on record was saved. -/
structure Carried (key : String) (manual : Bool) (inv : Inventory) (path : Path) (clock : Clock)
    (start : World) (errands : List Errand) (w : World) : Prop where
  times : ∀ i (inside : i < errands.length), errands[i].time = (clock i).instant
  each : ∀ v ∈ errands, Goes inv start key manual v
  said : Transcript start (errands.flatMap (·.log)) w
  recorded : Deployed inv key (methodOf manual) (arrivals errands) w.inventory
  untouched : errands = [] → w.disk = start.disk
  saved : errands ≠ [] → w.disk.readText path = .ok (w.inventory.text (.ofPath path)) ∧
    (w.inventory.IsStorable → (DocumentKind.ofPath path = .yaml → Yaml.ReadsBack w.inventory.data) →
      Store.loadInventory w.disk path = .ok w.inventory)

/-- What makes the next errand go on as those before, by the clock as it is by then. -/
structure Underway (key : String) (manual : Bool) (inv : Inventory) (path : Path) (clock : Clock)
    (start : World) (errands : List Errand) (clock' : Clock) (w : World) : Prop extends
    Carried key manual inv path clock start errands w where
  goesOn : ∀ i, clock' i = clock (errands.length + i)
  consistent : w.inventory.Consistent
  sound : w.disk.WellFormed
  readable : ∃ text, w.disk.readText path = .ok text
  sameTools : w.installed = start.installed
  sameNul : w.passesNul = start.passesNul

theorem arrivals_concat_ok (good : v.error = none) (errands : List Errand) :
    arrivals (errands ++ [v]) = arrivals errands ++ [⟨v.host, v.time⟩] := by
  simp [arrivals, good]

theorem arrivals_concat_error {e : Error} (failed : v.error = some e) (errands : List Errand) :
    arrivals (errands ++ [v]) = arrivals errands := by
  simp [arrivals, failed]

theorem times_concat {shown : Nat → Instant} (times : ∀ i (inside : i < errands.length), errands[i].time = shown i)
    (last : v.time = shown errands.length) (i : Nat) (inside : i < (errands ++ [v]).length) :
    (errands ++ [v])[i].time = shown i := by
  rw [List.getElem_append]
  split
  · exact times i _
  · have atEnd : i = errands.length := by
      rw [List.length_append, List.length_singleton] at inside
      omega
    simp only [atEnd, Nat.sub_self, List.getElem_singleton]
    exact last

namespace Underway

theorem activeKey (underway : Underway key manual inv path clock start errands clock' w)
    (active : inv.activeKey key = .ok k) : w.inventory.activeKey key = .ok k := by
  obtain ⟨_, only⟩ := underway.recorded.only
  rw [only]
  exact active

/-- What is on record after one errand more. -/
theorem recorded_concat (underway : Underway key manual inv path clock start errands clock' w)
    (visits : Visits key manual w v w') :
    Deployed inv key (methodOf manual) (arrivals (errands ++ [v])) w'.inventory ∧ w'.inventory.Consistent := by
  have came := visits.recorded
  split at came
  · rename_i e failed
    rw [arrivals_concat_error failed, came]
    exact ⟨underway.recorded, underway.consistent⟩
  · rename_i good
    rw [arrivals_concat_ok good]
    exact ⟨underway.recorded.record underway.consistent.jointsDistinct came,
      underway.consistent.recordDeployment came⟩

/-- One errand more, after which what is on record is saved. -/
theorem concat (underway : Underway key manual inv path clock start errands clock' w)
    (visits : Visits key manual w v w') (timed : v.time = clock'.now) : ∃ d,
      outcome (Store.saveInventory w'.inventory path) w' = (.ok (), { w' with disk := d }) ∧
      Underway key manual inv path clock start (errands ++ [v]) clock'.later { w' with disk := d } := by
  obtain ⟨_, readable⟩ := underway.readable
  have sound := underway.sound
  rw [← visits.sameDisk] at sound readable
  obtain ⟨d, run, soundAgain, read⟩ := Store.saveInventory_of_readText sound readable w'.inventory
  obtain ⟨_, only⟩ := underway.recorded.only
  have goes := visits.goes
  rw [only] at goes
  have recorded := underway.recorded_concat visits
  have said : Transcript start ((errands ++ [v]).flatMap (·.log)) w' := by
    rw [List.flatMap_append, List.flatMap_singleton]
    exact underway.said.append visits.said
  have began : v.time = (clock errands.length).instant := by
    rw [timed, Clock.now, underway.goesOn, Nat.add_zero]
  refine ⟨d, run, ?_⟩
  exact {
    times := times_concat underway.times began
    each := by
      intro u inside
      rcases List.mem_append.mp inside with earlier | last
      · exact underway.each u earlier
      · rw [List.mem_singleton.mp last]
        exact goes.of_deployments underway.sameTools underway.sameNul
    said := ⟨said.calls, said.replies, said.left, said.usual⟩
    recorded := recorded.1
    untouched := by simp
    saved := fun _ => ⟨read, Store.loadInventory_of_readText (w := { w' with disk := d }) read⟩
    goesOn := by
      intro i
      rw [Clock.later, underway.goesOn, List.length_append, List.length_singleton, Nat.add_assoc, Nat.add_comm 1]
    consistent := recorded.2
    sound := soundAgain
    readable := ⟨_, read⟩
    sameTools := visits.sameTools.trans underway.sameTools
    sameNul := visits.sameNul.trans underway.sameNul }

end Underway

def deployNext (setting : Setting) (key : String) (manual : Bool) (path : Path) (host : String) :
    Cli DeployResult := do
  let outcome ← attempt (deployOne key manual host (← now))
  saveInventory path
  let r : DeployResult := ⟨host, match outcome with
    | .ok () => none
    | .error e => some e.message⟩
  sayAtOnce setting (r.line manual)
  return r

/-- What is said of hosts at once. -/
def toldAtOnce (setting : Setting) (manual : Bool) (results : List DeployResult) : List String :=
  if setting.json then [] else results.map (DeployResult.line manual ·)

theorem outcome_deployNext (setting : Setting) (active : inv.activeKey key = .ok k) (host : String)
    (underway : Underway key manual inv path clock start errands c.clock c.world) : ∃ v w, v.host = host ∧
      outcome (deployNext setting key manual path host) c =
        (.ok v.result, { c.telling w (toldAtOnce setting manual [v.result]) with clock := c.clock.later }) ∧
      Underway key manual inv path clock start (errands ++ [v]) c.clock.later w := by
  obtain ⟨v, w', hostIs, timed, ran, visits⟩ := visits_deployOne manual (underway.activeKey active) host c.clock.now
  obtain ⟨d, saved, next⟩ := underway.concat visits timed
  have attempted : outcome (attempt (deployOne key manual host c.clock.now)) { c with clock := c.clock.later } =
      (.ok v.answer, { c with world := w', clock := c.clock.later }) := by
    rw [outcome_attempt, ran]
    have ordinary (e : Error) := visits.goes.isPanic_eq_false (e := e)
    unfold Errand.answer
    rcases v with ⟨_, _, _, _ | e⟩
    · rfl
    · dsimp only
      rw [ordinary e rfl]
      rfl
  have kept : outcome (saveInventory path) { c with world := w', clock := c.clock.later } =
      (.ok (), { c with world := { w' with disk := d }, clock := c.clock.later }) := by
    obtain ⟨w₁, saved', run⟩ | ⟨e, _, w₁, failed, _⟩ :=
      outcome_saveInventory path { c with world := w', clock := c.clock.later }
    · obtain rfl := (Prod.mk.inj (saved'.symm.trans saved)).2
      exact run
    · cases (Prod.mk.inj (failed.symm.trans saved)).1
  have resultIs : (⟨host, match v.answer with
      | .ok () => none
      | .error e => some e.message⟩ : DeployResult) = v.result := by
    rw [← hostIs]
    rcases v with ⟨_, _, _, _ | _⟩ <;> rfl
  refine ⟨v, { w' with disk := d }, hostIs, ?_, next⟩
  rw [deployNext, outcome_bind, outcome_now]
  dsimp only
  rw [outcome_bind, attempted]
  dsimp only
  rw [outcome_bind, kept]
  dsimp only
  rw [resultIs, outcome_bind, sayAtOnce, toldAtOnce]
  cases setting.json <;> rfl

theorem outcome_mapM_deployNext (setting : Setting) (active : inv.activeKey key = .ok k) (hosts : List String)
    (underway : Underway key manual inv path clock start errands c.clock c.world) :
    ∃ more : List Errand, more.map (·.host) = hosts ∧ ∀ n, ∃ clock' w,
      outcome ((hosts.take n).mapM (deployNext setting key manual path)) c =
        (.ok ((more.take n).map Errand.result),
          { c.telling w (toldAtOnce setting manual ((more.take n).map Errand.result)) with clock := clock' }) ∧
      Underway key manual inv path clock start (errands ++ more.take n) clock' w := by
  induction hosts generalizing errands c with
  | nil =>
    refine ⟨[], rfl, fun n => ⟨c.clock, c.world, ?_, ?_⟩⟩
    · rw [List.take_nil, List.take_nil, List.mapM_nil, toldAtOnce, Console.telling]
      cases setting.json <;> rfl
    · rw [List.take_nil, List.append_nil]
      exact underway
  | cons host rest ih =>
    obtain ⟨v, w, rfl, ran, next⟩ := outcome_deployNext setting active host underway
    obtain ⟨more, rfl, fronts⟩ :=
      ih (c := { c.telling w (toldAtOnce setting manual [v.result]) with clock := c.clock.later }) next
    refine ⟨v :: more, rfl, fun n => ?_⟩
    cases n with
    | zero =>
      refine ⟨c.clock, c.world, ?_, by simpa using underway⟩
      rw [List.take_zero, List.take_zero, List.mapM_nil, toldAtOnce, Console.telling]
      cases setting.json <;> rfl
    | succ n =>
      obtain ⟨clock', w', ran', next'⟩ := fronts n
      refine ⟨clock', w', ?_, by simpa using next'⟩
      rw [List.take_succ_cons, List.mapM_cons, outcome_bind, ran]
      dsimp only
      rw [outcome_bind, ran']
      simp only [outcome_pure, List.take_succ_cons, List.map_cons, toldAtOnce, Console.telling]
      cases setting.json <;> simp

/-! ## The command -/

/-- The command up to a step: the inventory is read, the key is in use, and it is put on the first hosts. -/
def deployUpTo (setting : Setting) (key : String) (hosts : List String) (manual : Bool) (n : Nat) :
    Cli (Path × List DeployResult) := do
  let path ← openInventory setting
  let _ ← ofExcept ((← inventory).activeKey key)
  let results ← (hosts.take n).mapM (deployNext setting key manual path)
  return (path, results)

def deployData (key : String) (results : List DeployResult) : Data :=
  .record [("key", .text key), ("results", .list (results.map DeployResult.data))]

/-- What the command says at its end. -/
def tellDeploys (setting : Setting) (key : String) (results : List DeployResult) : Cli Unit := do
  reportSorted setting (deployData key results) []
  let failed := results.countP (!·.ok)
  if 0 < failed then fail s!"deploy failed on {failed} of {results.length} host(s)"

/-- The command from a step on: the other hosts, and the report. -/
def deployFrom (setting : Setting) (key : String) (hosts : List String) (manual : Bool) (n : Nat)
    (done : Path × List DeployResult) : Cli Unit := do
  let more ← (hosts.drop n).mapM (deployNext setting key manual done.1)
  tellDeploys setting key (done.2 ++ more)

/-- The command passes through the state after any number of hosts. -/
theorem deploy_eq (setting : Setting) (key : String) (hosts : List String) (manual : Bool) (n : Nat) :
    deploy setting key hosts manual =
      deployUpTo setting key hosts manual n >>= deployFrom setting key hosts manual n := by
  have whole : deploy setting key hosts manual = openInventory setting >>= fun path =>
      inventory >>= fun inv => ofExcept (inv.activeKey key) >>= fun _ =>
        hosts.mapM (deployNext setting key manual path) >>= tellDeploys setting key := rfl
  rw [whole]
  unfold deployUpTo deployFrom
  simp only [bind_assoc, pure_bind]
  refine bind_congr fun path => bind_congr fun inv => bind_congr fun _ => ?_
  conv_lhs => rw [← List.take_append_drop n hosts, List.mapM_append]
  simp only [bind_assoc, pure_bind]

/-- All that the command says: a line for each host as it is visited, or one document with all results. -/
def deployReport (setting : Setting) (key : String) (manual : Bool) (results : List DeployResult) : List String :=
  reported setting (deployData key results).sorted (results.map (DeployResult.line manual ·))

theorem outcome_tellDeploys (setting : Setting) (key : String) (results : List DeployResult) (c : Console) :
    ∃ ending, outcome (tellDeploys setting key results) c =
        (ending, c.telling c.world (reported setting (deployData key results).sorted [])) ∧
      (ending = .ok () ↔ ∀ r ∈ results, r.ok = true) := by
  have all : results.countP (!·.ok) = 0 ↔ ∀ r ∈ results, r.ok = true := by
    rw [List.countP_eq_zero]
    exact forall₂_congr fun r _ => by simp
  rw [tellDeploys, outcome_bind, reportSorted, outcome_report]
  dsimp only
  split
  · rename_i some_
    exact ⟨_, rfl, nofun, fun good => absurd (all.mpr good) (Nat.ne_of_gt some_)⟩
  · rename_i none_
    exact ⟨_, rfl, fun _ => all.mp (Nat.eq_zero_of_not_pos none_), fun _ => rfl⟩

theorem underway_nil (start : World) (clock : Clock) (key : String) (manual : Bool) (consistent : inv.Consistent)
    (sound : start.disk.WellFormed) {text : String} (read : start.disk.readText path = .ok text) :
    Underway key manual inv path clock start [] clock { start with inventory := inv } where
  times := nofun
  each := nofun
  said := .of_same rfl rfl rfl
  recorded := .refl inv key _
  untouched := fun _ => rfl
  saved := fun some_ => absurd rfl some_
  goesOn := fun i => congrArg clock (Nat.zero_add i).symm
  consistent := consistent
  sound := sound
  readable := ⟨text, read⟩
  sameTools := rfl
  sameNul := rfl

theorem forall_ok_iff : (∀ r ∈ errands.map Errand.result, r.ok = true) ↔ ∀ v ∈ errands, v.error = none := by
  rw [List.forall_mem_map]
  exact forall₂_congr fun v _ => by simp [DeployResult.ok, Errand.result]

/-- There are errands for the hosts, and after any number of hosts the first of them have been carried out. -/
theorem exists_deployUpTo (hosts : List String) (manual : Bool) (file : setting.inventoryFile c.world.disk = path)
    (loaded : Store.loadInventory c.world.disk path = .ok inv) (consistent : inv.Consistent)
    (sound : c.world.disk.WellFormed) (active : inv.activeKey key = .ok k) :
    ∃ errands : List Errand, errands.map (·.host) = hosts ∧ ∀ n, ∃ clock' w,
      outcome (deployUpTo setting key hosts manual n) c = (.ok (path, (errands.take n).map Errand.result),
        { c.telling w (toldAtOnce setting manual ((errands.take n).map Errand.result)) with clock := clock' }) ∧
      Carried key manual inv path c.clock c.world (errands.take n) w := by
  obtain ⟨text, read⟩ : ∃ text, c.world.disk.readText path = .ok text := by
    rcases Store.of_loadInventory loaded with ⟨text, read, -⟩ | ⟨-, rfl⟩
    · exact ⟨text, read⟩
    · cases active
  have first := underway_nil c.world c.clock key manual consistent sound read
  obtain ⟨errands, hostsAre, fronts⟩ := outcome_mapM_deployNext setting
    (c := { c with world := { c.world with inventory := inv } }) active hosts first
  simp only [List.nil_append] at fronts
  refine ⟨errands, hostsAre, fun n => ?_⟩
  obtain ⟨clock', w, ran, underway⟩ := fronts n
  refine ⟨clock', w, ?_, underway.toCarried⟩
  rw [deployUpTo, outcome_bind, outcome_openInventory_of_loaded file loaded]
  dsimp only
  rw [outcome_bind, outcome_inventory]
  dsimp only
  rw [outcome_bind, outcome_ofExcept, active]
  dsimp only [Except.mapError]
  rw [outcome_bind, ran]
  rfl

theorem outcome_deploy_of_unused {e : Error} (hosts : List String) (manual : Bool)
    (file : setting.inventoryFile c.world.disk = path)
    (loaded : Store.loadInventory c.world.disk path = .ok inv) (unused : inv.activeKey key = .error e) :
    outcome (deploy setting key hosts manual) c =
      (.error (Failure.ofError e), { c with world := { c.world with inventory := inv } }) := by
  rw [deploy, outcome_bind, outcome_openInventory_of_loaded file loaded]
  dsimp only
  rw [outcome_bind, outcome_inventory]
  dsimp only
  rw [outcome_bind, outcome_ofExcept, unused]
  rfl

theorem outcome_deployFrom_all (setting : Setting) (key : String) (hosts : List String) (manual : Bool)
    (results : List DeployResult) (c : Console) :
    outcome (deployFrom setting key hosts manual hosts.length (path, results)) c =
      outcome (tellDeploys setting key results) c := by
  rw [deployFrom, List.drop_length, List.mapM_nil, pure_bind, List.append_nil]

theorem deployReport_eq (setting : Setting) (key : String) (manual : Bool) (results : List DeployResult) :
    deployReport setting key manual results =
      toldAtOnce setting manual results ++ reported setting (deployData key results).sorted [] := by
  rw [deployReport, toldAtOnce, reported, reported]
  cases setting.json <;> simp

/-- A key in use is carried to every host that is named, in their order, each on its own account. After each
host what is on record is saved: the key is there for the hosts that it has come to, once and as of what the
clock showed when it last did, and nothing else is changed. Each errand is reported, and the command succeeds if
they all did. A key that is not in use is carried nowhere, and nothing is saved. -/
theorem deploy_host_by_host (hosts : List String) (manual : Bool)
    (file : setting.inventoryFile c.world.disk = path)
    (loaded : Store.loadInventory c.world.disk path = .ok inv) (clean : inv.check = [])
    (sound : c.world.disk.WellFormed) :
    match inv.activeKey key with
    | .error e => outcome (deploy setting key hosts manual) c =
        (.error (Failure.ofError e), { c with world := { c.world with inventory := inv } })
    | .ok _ => ∃ errands : List Errand, errands.map (·.host) = hosts ∧
        (∀ n, (∃ rest, deploy setting key hosts manual = deployUpTo setting key hosts manual n >>= rest) ∧
          ∃ c', outcome (deployUpTo setting key hosts manual n) c =
              (.ok (path, (errands.take n).map Errand.result), c') ∧
            Carried key manual inv path c.clock c.world (errands.take n) c'.world) ∧
        ∃ ending c', outcome (deploy setting key hosts manual) c = (ending, c') ∧
          Carried key manual inv path c.clock c.world errands c'.world ∧
          c'.output = ((deployReport setting key manual (errands.map Errand.result)).map (· ++ "\n")).reverse ++
            c.output ∧
          ((conclude ending).1 = okStatus ↔ ∀ v ∈ errands, v.error = none) := by
  cases active : inv.activeKey key with
  | error e => exact outcome_deploy_of_unused hosts manual file loaded active
  | ok k =>
    obtain ⟨errands, hostsAre, upTo⟩ :=
      exists_deployUpTo hosts manual file loaded (check_eq_nil_iff.mp clean) sound active
    have all : errands.take hosts.length = errands := by
      rw [← hostsAre, List.length_map, List.take_length]
    obtain ⟨clock', w, ran, carried⟩ := upTo hosts.length
    rw [all] at ran carried
    generalize visited : { c.telling w (toldAtOnce setting manual (errands.map Errand.result)) with
      clock := clock' } = c₁ at ran
    obtain ⟨ending, told, good⟩ := outcome_tellDeploys setting key (errands.map Errand.result) c₁
    have whole : outcome (deploy setting key hosts manual) c =
        outcome (tellDeploys setting key (errands.map Errand.result)) c₁ := by
      rw [deploy_eq setting key hosts manual hosts.length, outcome_bind, ran]
      exact outcome_deployFrom_all ..
    subst visited
    refine ⟨errands, hostsAre, fun n => ⟨⟨_, deploy_eq setting key hosts manual n⟩, ?_⟩, ending, _,
      whole.trans told, carried, ?_, status_conclude.trans (good.trans forall_ok_iff)⟩
    · obtain ⟨_, w, ran, carried⟩ := upTo n
      exact ⟨_, ran, carried⟩
    · rw [Console.telling, Console.telling, deployReport_eq, List.map_append, List.reverse_append,
        List.append_assoc]

/-- One key is in use and one is not, the tool never fails, and the clock shows ten seconds more each time. -/
def deployConsole : Console where
  world := { bareWorld .empty with
    disk := Disk.emptyDisk.put ["inventory.json"] (.file (.text (linkedInventory.text .json)) 0o600 ⟨0, 0⟩)
    installed := [Call.keyInstaller]
    usualReply := .ran ⟨some 0, "", ""⟩ ⟨none, none⟩ }
  clock := fun n => ⟨⟨10 * n, 0⟩, Nat.zero_lt_succ _⟩
  output := []
  complaints := []

/-- One of them is not on record, and the other is named twice. -/
def namedHosts : List String := ["web", "gone", "web"]

theorem isStorable_linkedInventory : linkedInventory.IsStorable where
  version := by decide
  keys := by
    have bits (n : Nat) (h : (some 256 : Option Nat) = some n) : n < Nat.pow 2 32 := by
      obtain rfl := Option.some.inj h
      decide
    have zero : (⟨0, 0⟩ : Time.Instant).ReadsBack := by decide +kernel
    exact List.forall_mem_cons.mpr ⟨⟨bits, zero, nofun⟩, List.forall_mem_singleton.mpr ⟨bits, zero, nofun⟩⟩
  hosts := List.forall_mem_singleton.mpr ⟨by decide, by decide +kernel, nofun⟩
  deployments := by
    have zero : (⟨0, 0⟩ : Time.Instant).ReadsBack := by decide +kernel
    exact List.forall_mem_cons.mpr ⟨⟨zero, nofun⟩, List.forall_mem_singleton.mpr ⟨zero, nofun⟩⟩

theorem loadInventory_deployConsole :
    Store.loadInventory deployConsole.world.disk "inventory.json" = .ok linkedInventory := by
  have notRoot : ["inventory.json"] ≠ [] := by decide
  have found : deployConsole.world.disk.find true "inventory.json" =
      .ok (["inventory.json"], .file (.text (linkedInventory.text .json)) 0o600 ⟨0, 0⟩) :=
    Disk.find_eq_ok_iff.mpr ⟨rfl, Disk.entryAt_put_self notRoot⟩
  have inJson : DocumentKind.ofPath "inventory.json" = .json := by decide
  refine Store.loadInventory_of_readText (w := deployConsole.world) ?_ isStorable_linkedInventory fun inYaml => ?_
  · rw [inJson]
    exact Disk.readText_of_find found
  · rw [inJson] at inYaml
    cases inYaml

/-- Where the tool never fails, the key comes to the host that is on record. -/
theorem Carried.comes_to_web {errands : List Errand} {w : World} {v : Errand}
    (carried : Carried "work" false linkedInventory "inventory.json" deployConsole.clock deployConsole.world errands w)
    (member : v ∈ errands) (hostIs : v.host = "web") : v.error = none := by
  have replied : ∀ entry ∈ v.log, entry.2 = deployConsole.world.usualReply := by
    intro entry inside
    have among := List.mem_map_of_mem (f := (·.2)) (List.mem_flatMap.mpr ⟨v, member, inside⟩)
    rw [carried.said.replies] at among
    obtain ⟨_, -, is⟩ := List.mem_map.mp among
    rw [← is]
    rfl
  have known : installation linkedInventory "work" "web" none = .ok _ := rfl
  cases carried.each v member with
  | unknown missing =>
    obtain rfl := hostIs
    cases missing
  | barred calls bars =>
    obtain rfl := hostIs
    obtain rfl := Except.ok.inj (known.symm.trans calls)
    cases bars with
    | notInstalled missing => exact absurd (by decide) missing
    | nul holds stopped => cases stopped
  | failed calls fails =>
    obtain rfl := replied _ (List.mem_singleton_self _)
    cases fails
  | refused calls bad =>
    obtain ⟨rfl, -⟩ := Reply.ran.inj (replied _ (List.mem_singleton_self _))
    exact absurd rfl bad
  | installed => rfl

theorem Carried.misses_gone {errands : List Errand} {w : World} {v : Errand}
    (carried : Carried "work" false linkedInventory "inventory.json" deployConsole.clock deployConsole.world errands w)
    (member : v ∈ errands) (hostIs : v.host = "gone") : v.error ≠ none := by
  have missing : installation linkedInventory "work" "gone" none = .error (.hostNotFound "gone") := rfl
  cases carried.each v member with
  | unknown => nofun
  | barred => nofun
  | failed => nofun
  | refused => nofun
  | installed calls =>
    obtain rfl := hostIs
    cases missing.symm.trans calls

/-- The key comes to the host that is on record twice and is there once, as of the second time, and the command
fails on account of the other. A key that is not in use leaves all as it is. -/
theorem deploy_host_by_host_of_deployConsole :
    (∃ ending c', outcome (deploy settingThere "work" namedHosts false) deployConsole = (ending, c') ∧
      (conclude ending).1 ≠ okStatus ∧
      c'.world.inventory.deployments.filter (·.joins "work" "web") = [⟨"work", "web", ⟨20, 0⟩, .copied, none⟩] ∧
      c'.world.disk.readText "inventory.json" = .ok (c'.world.inventory.text (.ofPath "inventory.json"))) ∧
      (outcome (deploy settingThere "old" namedHosts false) deployConsole).2.world.disk = deployConsole.world.disk := by
  have clean : linkedInventory.check = [] := by decide
  have sound : deployConsole.world.disk.WellFormed :=
    Disk.wellFormed_loneFile (Name.isName_private (by decide)) rfl
  have there (key : String) := @deploy_host_by_host linkedInventory key settingThere "inventory.json" deployConsole
    namedHosts false rfl loadInventory_deployConsole clean sound
  constructor
  · have inUse := there "work"
    rw [show linkedInventory.activeKey "work" = .ok _ from rfl] at inUse
    obtain ⟨errands, hostsAre, -, ending, c', run, carried, -, good⟩ := inUse
    obtain ⟨v₀, rest, rfl, first, hostsAre⟩ := List.map_eq_cons_iff.mp hostsAre
    obtain ⟨v₁, rest, rfl, second, hostsAre⟩ := List.map_eq_cons_iff.mp hostsAre
    obtain ⟨v₂, rest, rfl, third, hostsAre⟩ := List.map_eq_cons_iff.mp hostsAre
    obtain rfl := List.map_eq_nil_iff.mp hostsAre
    have came := carried.comes_to_web (v := v₀) (by simp) first
    have failed := carried.misses_gone (v := v₁) (by simp) second
    have cameAgain := carried.comes_to_web (v := v₂) (by simp) third
    have lastTime : v₂.time = ⟨20, 0⟩ := carried.times 2 (Nat.lt_succ_self 2)
    have last : lastArrival? (arrivals [v₀, v₁, v₂]) "web" = some ⟨20, 0⟩ := by
      simp [lastArrival?, arrivals, came, cameAgain, failed, first, third, lastTime]
    refine ⟨ending, c', run, fun done => failed (good.mp done v₁ (by simp)), ?_, (carried.saved (List.cons_ne_nil _ _)).1⟩
    have arrived : (⟨v₂.host, v₂.time⟩ : Arrival) ∈ arrivals [v₀, v₁, v₂] :=
      List.mem_map_of_mem (f := fun v : Errand => (⟨v.host, v.time⟩ : Arrival))
        (List.mem_filter.mpr ⟨by simp, by simp [cameAgain]⟩)
    obtain ⟨t, is, onRecord⟩ := carried.recorded.there _ arrived
    dsimp only at is onRecord
    rw [third, last] at is
    rw [third, ← Option.some.inj is] at onRecord
    exact onRecord
  · have unused := there "old"
    rw [show linkedInventory.activeKey "old" = .error _ from rfl] at unused
    rw [unused]

end Keyring.CommandLine

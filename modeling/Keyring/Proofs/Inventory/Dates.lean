import Keyring.Proofs.Inventory.HostNames
import Keyring.Proofs.Time.Span

/-!
# Times on record

Requests are made under a clock that never goes back (`ReachesBy`). Whatever they do, no record
is from later than the clock, no deployment was verified before it was made, and what is known of
the last connection to a host fits together (`DatedBy`).
-/

namespace Keyring

open Inventory Lifecycle Remote Time Op

variable {inv inv' : Inventory} {clock now : Instant} {h : Host} {d : Deployment} {k : Key}

/-- Inventories after requests made one after the other from an empty one, with the clock of the last of
them. As ever, vault, files, tools and their replies may be others each time. -/
inductive Inventory.ReachesBy : Instant → Inventory → Prop where
  | start (clock : Instant) : ReachesBy clock .empty
  | step {w : World} {clock now : Instant} (vault : Path) (r : Request) :
      ReachesBy clock w.inventory → clock ≤ now → r.MadeAt now → ReachesBy now (r.after vault w).inventory

/-- It was made by then, and verified if at all between then and its making. -/
structure Deployment.DatedBy (clock : Instant) (d : Deployment) : Prop where
  deployed : d.deployedAt ≤ clock
  verified : ∀ t, d.verifiedAt = some t → d.deployedAt ≤ t ∧ t ≤ clock

/-- It was added by then, and its last test was made by then and has one outcome: an error is there, and
says something, just where the test failed. -/
structure Host.DatedBy (clock : Instant) (h : Host) : Prop where
  added : h.addedAt ≤ clock
  checked : ∀ t, h.lastChecked = some t → t ≤ clock
  outcome : h.lastChecked.isSome = true ↔ h.lastCheckOk.isSome = true
  failure : h.lastCheckError.isSome = true ↔ h.lastCheckOk = some false
  told : h.lastCheckError ≠ some ""

/-- All that is on record was there by then. -/
structure Inventory.DatedBy (clock : Instant) (inv : Inventory) : Prop where
  created : ∀ k ∈ inv.keys, k.createdAt ≤ clock
  hosts : ∀ h ∈ inv.hosts, h.DatedBy clock
  deployments : ∀ d ∈ inv.deployments, d.DatedBy clock

theorem Deployment.DatedBy.mono (dated : d.DatedBy clock) (later : clock ≤ now) : d.DatedBy now where
  deployed := Instant.le_trans dated.deployed later
  verified := by
    intro t verified
    obtain ⟨after, before⟩ := dated.verified t verified
    exact ⟨after, Instant.le_trans before later⟩

theorem Host.DatedBy.mono (dated : h.DatedBy clock) (later : clock ≤ now) : h.DatedBy now where
  added := Instant.le_trans dated.added later
  checked := fun t checked => Instant.le_trans (dated.checked t checked) later
  outcome := dated.outcome
  failure := dated.failure
  told := dated.told

namespace Inventory.DatedBy

theorem mono (dated : inv.DatedBy clock) (later : clock ≤ now) : inv.DatedBy now where
  created := fun k inside => Instant.le_trans (dated.created k inside) later
  hosts := fun h inside => (dated.hosts h inside).mono later
  deployments := fun d inside => (dated.deployments d inside).mono later

theorem empty (clock : Instant) : Inventory.empty.DatedBy clock where
  created := List.forall_mem_nil _
  hosts := List.forall_mem_nil _
  deployments := List.forall_mem_nil _

/-! ## Edits -/

theorem addKey (dated : inv.DatedBy clock) (created : k.createdAt ≤ clock) :
    DatedBy clock { inv with keys := inv.keys ++ [k] } := by
  refine ⟨fun k' inside => ?_, dated.hosts, dated.deployments⟩
  rcases List.mem_append.mp inside with known | last
  · exact dated.created k' known
  · rw [List.mem_singleton.mp last]
    exact created

theorem changeKey (dated : inv.DatedBy clock) {name : String} {change : Key → Key}
    (same : ∀ k, (change k).createdAt = k.createdAt) : (inv.changeKey name change).DatedBy clock := by
  refine ⟨fun k inside => ?_, dated.hosts, dated.deployments⟩
  rcases of_mem_changeFirst inside with known | ⟨old, known, rfl⟩
  · exact dated.created k known
  · rw [same]
    exact dated.created old known

theorem withHosts (dated : inv.DatedBy clock) {hosts : List Host} (known : ∀ h ∈ hosts, h.DatedBy clock) :
    DatedBy clock { inv with hosts := hosts } := ⟨dated.created, known, dated.deployments⟩

theorem changeHost (dated : inv.DatedBy clock) {label : String} {change : Host → Host}
    (changed : ∀ h, h.DatedBy clock → (change h).DatedBy clock) : (inv.changeHost label change).DatedBy clock := by
  refine dated.withHosts fun h inside => ?_
  rcases of_mem_changeFirst inside with known | ⟨old, known, rfl⟩
  · exact dated.hosts h known
  · exact changed old (dated.hosts old known)

theorem mapHosts (dated : inv.DatedBy clock) {change : Host → Host}
    (changed : ∀ h, h.DatedBy clock → (change h).DatedBy clock) :
    DatedBy clock { inv with hosts := inv.hosts.map change } := by
  refine dated.withHosts fun h inside => ?_
  obtain ⟨old, known, rfl⟩ := List.mem_map.mp inside
  exact changed old (dated.hosts old known)

theorem withDeployments (dated : inv.DatedBy clock) {deployments : List Deployment}
    (known : ∀ d ∈ deployments, d.DatedBy clock) : DatedBy clock { inv with deployments := deployments } :=
  ⟨dated.created, dated.hosts, known⟩

theorem changeDeployment (dated : inv.DatedBy clock) {key host : String} {change : Deployment → Deployment}
    (changed : ∀ d, d.DatedBy clock → (change d).DatedBy clock) :
    (inv.changeDeployment key host change).DatedBy clock := by
  refine dated.withDeployments fun d inside => ?_
  rcases of_mem_changeFirst inside with known | ⟨old, known, rfl⟩
  · exact dated.deployments d known
  · exact changed old (dated.deployments old known)

theorem dropKey (dated : inv.DatedBy clock) {name : String} : (inv.dropKey name).DatedBy clock := by
  refine ⟨fun k inside => ?_, fun h inside => ?_, fun d inside => ?_⟩
  · obtain ⟨old, known, rfl⟩ := List.mem_map.mp inside
    exact dated.created old (List.mem_of_mem_eraseP known)
  · obtain ⟨old, known, rfl⟩ := List.mem_map.mp inside
    have kept := dated.hosts old known
    exact ⟨kept.added, kept.checked, kept.outcome, kept.failure, kept.told⟩
  · exact dated.deployments d (List.mem_of_mem_filter inside)

theorem removeHost (dated : inv.DatedBy clock) {label : String}
    (removed : inv.removeHost label = .ok (h, inv')) : inv'.DatedBy clock := by
  rw [removeHost_eq_ok removed]
  refine ⟨dated.created, fun h inside => ?_, fun d inside => ?_⟩
  · exact dated.hosts h (List.mem_of_mem_eraseP inside)
  · exact dated.deployments d (List.mem_of_mem_filter inside)

/-- A deployment that is refreshed counts as unverified, so an earlier verification is not kept. -/
theorem recordDeployment (dated : inv.DatedBy now) {key host : String} {method : DeployMethod}
    (recorded : inv.recordDeployment key host method now = .ok inv') : inv'.DatedBy now := by
  have fresh : ∀ key host method, Deployment.DatedBy now ⟨key, host, now, method, none⟩ :=
    fun _ _ _ => ⟨Instant.le_refl now, nofun⟩
  obtain ⟨-, -, ⟨-, rfl⟩ | ⟨-, rfl⟩⟩ := recordDeployment_eq_ok recorded
  · exact dated.changeDeployment fun d _ => fresh d.key d.host method
  · refine dated.withDeployments fun d inside => ?_
    rcases List.mem_append.mp inside with known | last
    · exact dated.deployments d known
    · rw [List.mem_singleton.mp last]
      exact fresh key host method

theorem markVerified (dated : inv.DatedBy now) {key host : String}
    (marked : inv.markVerified key host now = .ok inv') : inv'.DatedBy now := by
  rw [markVerified_eq_ok marked]
  refine dated.changeDeployment fun d known => ⟨known.deployed, ?_⟩
  rintro _ ⟨⟩
  exact ⟨known.deployed, Instant.le_refl now⟩

theorem removeDeployment (dated : inv.DatedBy clock) {key host : String}
    (removed : inv.removeDeployment key host = .ok (d, inv')) : inv'.DatedBy clock := by
  rw [removeDeployment_eq_ok removed]
  exact dated.withDeployments fun d inside => dated.deployments d (List.mem_of_mem_eraseP inside)

theorem recordCheck (dated : inv.DatedBy now) {label : String} {error : Option String} (told : error ≠ some "") :
    (Remote.recordCheck inv label error now).DatedBy now := by
  refine dated.changeHost fun h known => ⟨known.added, ?_, ?_, ?_, told⟩
  · rintro _ ⟨⟩
    exact Instant.le_refl now
  · simp
  · cases error <;> simp

theorem insertHost (dated : inv.DatedBy now) {req : NewHost} {here : Option String}
    (made : hostOf req here now = .ok h) (inserted : inv.insertHost h = .ok inv') : inv'.DatedBy now := by
  obtain ⟨-, -, rfl⟩ := insertHost_eq_ok inserted
  refine dated.withHosts fun h' inside => ?_
  rcases List.mem_append.mp inside with known | last
  · exact dated.hosts h' known
  · rw [List.mem_singleton.mp last]
    obtain ⟨-, -, rfl⟩ := hostOf_eq_ok made
    exact ⟨Instant.le_refl now, nofun, Iff.rfl, by simp, nofun⟩

theorem linkRotation (dated : inv.DatedBy clock) (old new : String) :
    (Lifecycle.linkRotation inv old new).DatedBy clock := by
  have marked : (inv.changeKey old (followedBy new)).DatedBy clock := dated.changeKey fun _ => rfl
  have linked : ((inv.changeKey old (followedBy new)).changeKey new (following old)).DatedBy clock :=
    marked.changeKey fun _ => rfl
  refine linked.mapHosts fun h known => ?_
  split
  · exact ⟨known.added, known.checked, known.outcome, known.failure, known.told⟩
  · exact known

end Inventory.DatedBy

/-- A program that failed is said to have failed in some way. -/
theorem Output.errorMessage_ne_empty (o : Output) : o.errorMessage ≠ "" := by
  unfold errorMessage
  dsimp only
  split
  · rename_i said
    simpa using said
  · cases o.status with
    | none => decide
    | some code =>
      intro empty
      have start : "exited with status " = "" := (String.append_eq_empty_iff.mp empty).1
      exact absurd start (by decide)

/-- A test that failed is recorded with an error that says something. -/
theorem Remote.testConnection_tells (label : String) (timeoutSecs : Nat) (now : Instant) (inv : Inventory) :
    Commits inv (fun o inv' => o.error ≠ some "" ∧ inv' = recordCheck inv label o.error now)
      (testConnection label timeoutSecs now) := by
  refine Commits.inventory (Commits.ofExcept fun h known => ?_)
  refine Commits.after (keepsInventory_call _ _ _) fun output => ?_
  intro w same
  rw [outcome_bind, outcome_recordCheck, same, known]
  refine ⟨?_, rfl⟩
  by_cases good : output.success = true
  · simp [good]
  · simpa [good] using output.errorMessage_ne_empty

theorem Lifecycle.creationTime_le {disk : Disk} {privateFile : Path} {created : Instant}
    (aged : creationTime disk privateFile now = .ok created) : created ≤ now := by
  unfold creationTime at aged
  split at aged
  · obtain rfl := Except.ok.inj aged
    exact Instant.le_refl now
  · rename_i t _
    rcases dated : dateOfFile t with e | date <;> rw [dated] at aged
    · cases aged
    · obtain rfl := Except.ok.inj aged
      split
      · assumption
      · exact Instant.le_refl now

/-- A key that is taken in is not from later than now, even where its file is. -/
theorem Lifecycle.Imports.datedBy {req : ImportedKey} (imports : Imports req now inv k inv')
    (dated : inv.DatedBy now) : inv'.DatedBy now := by
  obtain ⟨_, aged⟩ := imports.createdAt
  rw [imports.enters.added]
  exact dated.addKey (creationTime_le aged)

theorem Lifecycle.Makes.datedBy {vault : Path} {req : NewKey} (makes : Makes vault req now inv k inv')
    (dated : inv.DatedBy now) : inv'.DatedBy now := by
  rw [makes.enters.added]
  refine dated.addKey ?_
  rw [makes.createdAt]
  exact Instant.le_refl now

/-- A request made by the clock leaves everything on record dated by then. -/
theorem Request.datedBy_after (vault : Path) {r : Request} {w : World} (dated : w.inventory.DatedBy now)
    (madeAt : r.MadeAt now) : (r.after vault w).inventory.DatedBy now := by
  unfold Request.after
  cases r <;> simp only [Request.run, outcome_discard]
  case generate req t =>
    obtain rfl := madeAt t rfl
    exact ((generate_commits vault req t _).mono fun k inv' makes => makes.datedBy dated).keeps dated
  case importKey req t =>
    obtain rfl := madeAt t rfl
    exact ((importKey_commits vault req t _).mono fun k inv' imports => imports.datedBy dated).keeps dated
  case rotate req t =>
    obtain rfl := madeAt t rfl
    refine Commits.keeps (commits_rotate fun old newName made mid active makes => ?_) dated
    exact (makes.datedBy dated).linkRotation _ _
  case revokeKey name =>
    refine ((revokeKey_commits name _).mono ?_).keeps dated
    rintro _ _ ⟨-, -, rfl⟩
    exact dated.changeKey fun _ => rfl
  case setExpiry name ttlDays t =>
    refine ((setExpiry_commits name ttlDays t _).mono ?_).keeps dated
    rintro _ _ ⟨-, -, rfl⟩
    exact dated.changeKey fun _ => rfl
  case removeKey name force deleteFiles =>
    have removed := removeKey_inventory vault name force deleteFiles w
    rcases h : w.inventory.removeKey name force with e | ⟨k, inv'⟩
    · simp only [h] at removed
      rw [removed]
      exact dated
    · simp only [h] at removed
      obtain ⟨_, _, _, rfl⟩ := removeKey_eq_ok h
      rw [removed]
      exact dated.dropKey
  case addHost req here t =>
    obtain rfl := madeAt t rfl
    exact ((addHost_commits req here t _).mono fun h inv' added => dated.insertHost added.1 added.2).keeps dated
  case updateHost label change =>
    refine ((updateHost_commits label change _).mono ?_).keeps dated
    rintro _ _ ⟨-, -, rfl⟩
    exact dated.changeHost fun h known => ⟨known.added, known.checked, known.outcome, known.failure, known.told⟩
  case removeHost label =>
    exact ((removeHost_commits label _).mono fun h inv' removed => dated.removeHost removed).keeps dated
  case testConnection label timeoutSecs t =>
    obtain rfl := madeAt t rfl
    refine ((testConnection_tells label timeoutSecs t _).mono ?_).keeps dated
    rintro o _ ⟨told, rfl⟩
    exact dated.recordCheck told
  case deploy key label auth t =>
    obtain rfl := madeAt t rfl
    exact ((deploy_commits key label auth t _).mono fun _ inv' put => dated.recordDeployment put.2).keeps dated
  case markDeployed key label t =>
    obtain rfl := madeAt t rfl
    exact ((markDeployed_commits key label t _).mono fun _ inv' put => dated.recordDeployment put.2).keeps dated
  case verify key label timeoutSecs t =>
    obtain rfl := madeAt t rfl
    refine ((verify_commits key label timeoutSecs t _).mono fun found inv' marked => ?_).keeps dated
    split at marked
    · exact dated.markVerified marked
    · exact marked ▸ dated
  case revoke key label timeoutSecs =>
    refine ((revoke_commits key label timeoutSecs _).mono ?_).keeps dated
    rintro _ inv' ⟨d, removed⟩
    exact dated.removeDeployment removed

/-- In every run under a clock that never goes back, nothing on record is from later than the clock of
the last step, no deployment was verified before it was made, and the last test of each host is on
record as a whole or not at all, with an error that says something just where it failed. -/
theorem Inventory.datedBy_of_reachesBy (run : ReachesBy clock inv) : inv.DatedBy clock := by
  induction run with
  | start clock => exact .empty clock
  | step vault r _ later madeAt ih => exact r.datedBy_after vault (ih.mono later) madeAt

/-- A minute after the host `web` was put on record it is tested. -/
def testWeb : Request := .testConnection "web" 10 ⟨60, 0⟩

/-- A world with that host where every login is turned down without a word. -/
def silentWorld : World :=
  ⟨webInventory, ⟨[], [], ⟨0, 0⟩⟩, [Call.login], true, [], .ran ⟨some 255, "", ""⟩ ⟨none, none⟩, []⟩

/-- The test is recorded with an error, which says how the login ended. -/
theorem datedBy_of_testWeb :
    (testWeb.after "vault" silentWorld).inventory.hosts = [⟨"web", "example.org", "root", 22, none, [], ⟨0, 0⟩,
        some ⟨60, 0⟩, some false, some "exited with status 255"⟩] ∧
      (testWeb.after "vault" silentWorld).inventory.DatedBy ⟨60, 0⟩ := by
  have addedAt : newWeb.MadeAt ⟨0, 0⟩ := fun t asked => (Option.some.inj asked).symm
  have testedAt : testWeb.MadeAt ⟨60, 0⟩ := fun t asked => (Option.some.inj asked).symm
  have added : ReachesBy ⟨0, 0⟩ webInventory :=
    .step (w := bareWorld .empty) "vault" newWeb (.start ⟨0, 0⟩) (Instant.le_refl _) addedAt
  have tested : ReachesBy ⟨60, 0⟩ (testWeb.after "vault" silentWorld).inventory :=
    .step (w := silentWorld) "vault" testWeb added (by decide) testedAt
  exact ⟨by decide +kernel, datedBy_of_reachesBy tested⟩

end Keyring

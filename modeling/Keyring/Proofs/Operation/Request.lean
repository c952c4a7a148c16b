import Keyring.Proofs.Operation.Effect

/-!
# Requests and runs

The fourteen operations on keys and hosts as data, and what each may do to an
inventory (`Effect`). Inventories are reached from one another by requests in
any order, each made in a world of its own (`Reaches`).
-/

namespace Keyring

open Lifecycle Remote Time

inductive Request where
  | generate (req : NewKey) (now : Instant)
  | importKey (req : ImportedKey) (now : Instant)
  | rotate (req : Rotation) (now : Instant)
  | revokeKey (name : String)
  | setExpiry (name : String) (ttlDays : Option Nat) (now : Instant)
  | removeKey (name : String) (force deleteFiles : Bool)
  | addHost (req : NewHost) (here : Option String) (now : Instant)
  | updateHost (label : String) (change : HostChange)
  | removeHost (label : String)
  | testConnection (label : String) (timeoutSecs : Nat) (now : Instant)
  | deploy (key label : String) (auth : Option String) (now : Instant)
  | markDeployed (key label : String) (now : Instant)
  | verify (key label : String) (timeoutSecs : Nat) (now : Instant)
  | revoke (key label : String) (timeoutSecs : Nat)

namespace Request

/-- The operation that a request asks for, with its answer left out. -/
def run (vault : Path) : Request → Op Unit
  | generate req now => discard (Lifecycle.generate vault req now)
  | importKey req now => discard (Lifecycle.importKey vault req now)
  | rotate req now => discard (Lifecycle.rotate vault req now)
  | revokeKey name => discard (Lifecycle.revokeKey name)
  | setExpiry name ttlDays now => discard (Lifecycle.setExpiry name ttlDays now)
  | removeKey name force deleteFiles => discard (Lifecycle.removeKey vault name force deleteFiles)
  | addHost req here now => discard (Remote.addHost req here now)
  | updateHost label change => discard (Remote.updateHost label change)
  | removeHost label => discard (Remote.removeHost label)
  | testConnection label timeoutSecs now => discard (Remote.testConnection label timeoutSecs now)
  | deploy key label auth now => Remote.deploy key label auth now
  | markDeployed key label now => Remote.markDeployed key label now
  | verify key label timeoutSecs now => discard (Remote.verify key label timeoutSecs now)
  | revoke key label timeoutSecs => Remote.revoke key label timeoutSecs

/-- The world that a request leaves, whether it succeeds or fails. -/
def after (vault : Path) (r : Request) (w : World) : World := (outcome (r.run vault) w).2

/-- The time that a request is given, if it asks for the time. -/
def time? : Request → Option Instant
  | .generate _ now | .importKey _ now | .rotate _ now | .setExpiry _ _ now | .addHost _ _ now
  | .testConnection _ _ now | .deploy _ _ _ now | .markDeployed _ _ now | .verify _ _ _ now => some now
  | .revokeKey _ | .removeKey .. | .updateHost .. | .removeHost _ | .revoke .. => none

/-- A request that asks for the time is given that of the clock. -/
def MadeAt (r : Request) (clock : Instant) : Prop := ∀ t, r.time? = some t → t = clock

end Request

/-- The ways in which a request may change an inventory. -/
inductive Effect (inv : Inventory) : Request → Inventory → Prop where
  | nothing (r : Request) : Effect inv r inv
  | generate {req : NewKey} {now : Instant} {k : Key} {inv' : Inventory} :
      Enters inv req.name k inv' → Effect inv (.generate req now) inv'
  | importKey {req : ImportedKey} {now : Instant} {k : Key} {inv' : Inventory} :
      Enters inv req.name k inv' → Effect inv (.importKey req now) inv'
  | rotate {req : Rotation} {now : Instant} {o : RotationOutcome} {inv' : Inventory} :
      Rotates inv req o inv' → Effect inv (.rotate req now) inv'
  | revokeKey {name : String} :
      Effect inv (.revokeKey name) (inv.changeKey name fun k => { k with status := .revoked })
  | setExpiry {name : String} {ttlDays : Option Nat} {now : Instant} {expiresAt : Option Instant} :
      expiryFrom now ttlDays = .ok expiresAt →
      Effect inv (.setExpiry name ttlDays now)
        (inv.changeKey name fun k => { k with expiresAt := expiresAt })
  | removeKey {name : String} {force deleteFiles : Bool} {k : Key} {inv' : Inventory} :
      inv.removeKey name force = .ok (k, inv') → Effect inv (.removeKey name force deleteFiles) inv'
  | addHost {req : NewHost} {here : Option String} {now : Instant} {h : Host} {inv' : Inventory} :
      hostOf req here now = .ok h → inv.insertHost h = .ok inv' →
      Effect inv (.addHost req here now) inv'
  | updateHost {label : String} {change : HostChange} :
      (∀ i, change.identity = some i → ∃ k, inv.key i = .ok k) →
      Effect inv (.updateHost label change) (inv.changeHost label change.apply)
  | removeHost {label : String} {h : Host} {inv' : Inventory} :
      inv.removeHost label = .ok (h, inv') → Effect inv (.removeHost label) inv'
  | testConnection {label : String} {timeoutSecs : Nat} {now : Instant} {error : Option String} :
      Effect inv (.testConnection label timeoutSecs now) (recordCheck inv label error now)
  | deploy {key label : String} {auth : Option String} {now : Instant} {k : Key} {inv' : Inventory} :
      inv.activeKey key = .ok k → inv.recordDeployment key label .copied now = .ok inv' →
      Effect inv (.deploy key label auth now) inv'
  | markDeployed {key label : String} {now : Instant} {k : Key} {inv' : Inventory} :
      inv.activeKey key = .ok k → inv.recordDeployment key label .manual now = .ok inv' →
      Effect inv (.markDeployed key label now) inv'
  | verify {key label : String} {timeoutSecs : Nat} {now : Instant} {inv' : Inventory} :
      inv.markVerified key label now = .ok inv' → Effect inv (.verify key label timeoutSecs now) inv'
  | revoke {key label : String} {timeoutSecs : Nat} {d : Deployment} {inv' : Inventory} :
      inv.removeDeployment key label = .ok (d, inv') →
      Effect inv (.revoke key label timeoutSecs) inv'

/-- What is known of a committed inventory is known of the world after it. -/
theorem Op.Commits.effect {α : Type} {inv : Inventory} {Q : α → Inventory → Prop} {op : Op α}
    (commits : Op.Commits inv Q op) {r : Request} (known : ∀ a inv', Q a inv' → Effect inv r inv')
    {w : World} (same : w.inventory = inv) : Effect inv r (outcome op w).2.inventory := by
  have done := commits w same
  rcases h : outcome op w with ⟨e | a, w'⟩
  · simp only [h] at done
    simpa [done] using Effect.nothing r
  · simp only [h] at done
    exact known a _ done

theorem outcome_discard {α : Type} (op : Op α) (w : World) :
    (outcome (discard op) w).2 = (outcome op w).2 := by
  rw [outcome_discard_eq]

theorem Request.effect (vault : Path) (r : Request) (w : World) :
    Effect w.inventory r (r.after vault w).inventory := by
  unfold Request.after
  cases r <;> simp only [Request.run, outcome_discard]
  case generate req now =>
    exact (generate_commits vault req now _).effect (fun _ _ makes => .generate makes.enters) rfl
  case importKey req now =>
    exact (importKey_commits vault req now _).effect (fun _ _ imports => .importKey imports.enters) rfl
  case rotate req now =>
    exact (rotate_commits vault req now _).effect (fun _ _ rotated => .rotate rotated) rfl
  case revokeKey name =>
    refine (revokeKey_commits name _).effect ?_ rfl
    rintro _ _ ⟨-, -, rfl⟩
    exact .revokeKey
  case setExpiry name ttlDays now =>
    refine (setExpiry_commits name ttlDays now _).effect ?_ rfl
    rintro _ _ ⟨-, due, rfl⟩
    exact .setExpiry due
  case removeKey name force deleteFiles =>
    have removed := removeKey_inventory vault name force deleteFiles w
    rcases h : w.inventory.removeKey name force with e | ⟨k, inv'⟩
    · simp only [h] at removed
      rw [removed]
      exact .nothing _
    · simp only [h] at removed
      rw [removed]
      exact .removeKey h
  case addHost req here now =>
    exact (addHost_commits req here now _).effect (fun _ _ added => .addHost added.1 added.2) rfl
  case updateHost label change =>
    refine (updateHost_commits label change _).effect ?_ rfl
    rintro _ _ ⟨known, -, rfl⟩
    exact .updateHost known
  case removeHost label =>
    exact (removeHost_commits label _).effect (fun _ _ removed => .removeHost removed) rfl
  case testConnection label timeoutSecs now =>
    refine (testConnection_commits label timeoutSecs now _).effect ?_ rfl
    rintro _ _ ⟨-, rfl⟩
    exact .testConnection
  case deploy key label auth now =>
    refine (deploy_commits key label auth now _).effect ?_ rfl
    rintro _ _ ⟨⟨k, active⟩, recorded⟩
    exact .deploy active recorded
  case markDeployed key label now =>
    refine (markDeployed_commits key label now _).effect ?_ rfl
    rintro _ _ ⟨⟨k, active⟩, recorded⟩
    exact .markDeployed active recorded
  case verify key label timeoutSecs now =>
    refine (verify_commits key label timeoutSecs now _).effect ?_ rfl
    intro found inv' marked
    cases found with
    | true => exact .verify marked
    | false => exact marked ▸ .nothing _
  case revoke key label timeoutSecs =>
    refine (revoke_commits key label timeoutSecs _).effect ?_ rfl
    rintro _ _ ⟨d, removed⟩
    exact .revoke removed

/-- Inventories after requests, made one after the other. Only the inventory is handed on: vault,
files, tools and their replies may be others each time. -/
inductive Inventory.Reaches (start : Inventory) : Inventory → Prop where
  | start : Reaches start start
  | step {w : World} (vault : Path) (r : Request) :
      Reaches start w.inventory → Reaches start (r.after vault w).inventory

end Keyring

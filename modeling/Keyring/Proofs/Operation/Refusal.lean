import Keyring.Proofs.Disk.Entries
import Keyring.Proofs.Inventory.Consistency
import Keyring.Proofs.Operation.Request

/-!
# Operations that fail

An operation that fails, for whatever reason and however late, leaves the inventory as
it was (`KeepsOnError`), also where tools were called and files written before, and also
where names are given twice. Only a removal takes the record before its last step that
can fail.
-/

namespace Keyring

open Lifecycle Remote Time

/-- The edits of an inventory that may be refused. -/
inductive Edit where
  | insertKey (k : Key)
  | insertHost (h : Host)
  | removeKey (name : String) (force : Bool)
  | removeHost (label : String)
  | recordDeployment (key host : String) (method : DeployMethod) (now : Instant)
  | removeDeployment (key host : String)
  | markVerified (key host : String) (now : Instant)

namespace Edit

/-- The inventory that an edit leaves, if it is not refused. -/
def apply (inv : Inventory) : Edit → Except Error Inventory
  | insertKey k => inv.insertKey k
  | insertHost h => inv.insertHost h
  | removeKey name force => (inv.removeKey name force).map (·.2)
  | removeHost label => (inv.removeHost label).map (·.2)
  | recordDeployment key host method now => inv.recordDeployment key host method now
  | removeDeployment key host => (inv.removeDeployment key host).map (·.2)
  | markVerified key host now => inv.markVerified key host now

def work : Edit → InventoryM Unit
  | insertKey k => InventoryM.insertKey k
  | insertHost h => InventoryM.insertHost h
  | removeKey name force => discard (InventoryM.removeKey name force)
  | removeHost label => discard (InventoryM.removeHost label)
  | recordDeployment key host method now => InventoryM.recordDeployment key host method now
  | removeDeployment key host => discard (InventoryM.removeDeployment key host)
  | markVerified key host now => InventoryM.markVerified key host now

def run (c : Edit) : Op Unit := Op.edit c.work

open InventoryM in
theorem atomic_work (c : Edit) : Atomic c.work := by
  cases c with
  | insertKey k => exact atomic_insertKey k
  | insertHost h => exact atomic_insertHost h
  | removeKey name force => exact (atomic_removeKey name force).discard
  | removeHost label => exact (atomic_removeHost label).discard
  | recordDeployment key host method now => exact atomic_recordDeployment key host method now
  | removeDeployment key host => exact (atomic_removeDeployment key host).discard
  | markVerified key host now => exact atomic_markVerified key host now

theorem changed_work (c : Edit) (inv : Inventory) : c.work.changed inv = c.apply inv := by
  cases c with
  | insertKey k => rfl
  | insertHost h => rfl
  | removeKey name force => exact InventoryM.changed_discard _ inv
  | removeHost label => exact InventoryM.changed_discard _ inv
  | recordDeployment key host method now => rfl
  | removeDeployment key host => exact InventoryM.changed_discard _ inv
  | markVerified key host now => rfl

end Edit

namespace Op

variable {α : Type}

/-- An operation that fails leaves the inventory as it was. -/
def KeepsOnError (op : Op α) : Prop :=
  ∀ w e, (outcome op w).1 = .error e → (outcome op w).2.inventory = w.inventory

theorem Commits.keepsOnError {op : Op α} {Q : Inventory → α → Inventory → Prop}
    (commits : ∀ inv, Commits inv (Q inv) op) : KeepsOnError op := by
  intro w e failed
  have done := commits w.inventory w rfl
  rcases run : outcome op w with ⟨e' | a, w'⟩
  · rw [run] at done
    exact done
  · rw [run] at failed
    cases failed

theorem KeepsOnError.discard {op : Op α} (keeps : KeepsOnError op) : KeepsOnError (Functor.discard op) := by
  intro w e failed
  rw [outcome_discard_eq] at failed ⊢
  rcases run : (outcome op w).1 with e' | a
  · exact keeps w e' run
  · rw [run] at failed
    cases failed

end Op

namespace Request

/-- Removals are the requests that may fail with the record gone. -/
def isRemoval : Request → Bool
  | removeKey .. => true
  | _ => false

theorem keepsOnError (vault : Path) {r : Request} (stays : r.isRemoval = false) :
    Op.KeepsOnError (r.run vault) := by
  cases r with
  | generate req now => exact (Op.Commits.keepsOnError (generate_commits vault req now)).discard
  | importKey req now => exact (Op.Commits.keepsOnError (importKey_commits vault req now)).discard
  | rotate req now => exact (Op.Commits.keepsOnError (rotate_commits vault req now)).discard
  | revokeKey name => exact (Op.Commits.keepsOnError (revokeKey_commits name)).discard
  | setExpiry name ttlDays now =>
    exact (Op.Commits.keepsOnError (setExpiry_commits name ttlDays now)).discard
  | removeKey name force deleteFiles => cases stays
  | addHost req here now => exact (Op.Commits.keepsOnError (addHost_commits req here now)).discard
  | updateHost label change => exact (Op.Commits.keepsOnError (updateHost_commits label change)).discard
  | removeHost label => exact (Op.Commits.keepsOnError (removeHost_commits label)).discard
  | testConnection label timeoutSecs now =>
    exact (Op.Commits.keepsOnError (testConnection_commits label timeoutSecs now)).discard
  | deploy key label auth now => exact Op.Commits.keepsOnError (deploy_commits key label auth now)
  | markDeployed key label now => exact Op.Commits.keepsOnError (markDeployed_commits key label now)
  | verify key label timeoutSecs now =>
    exact (Op.Commits.keepsOnError (verify_commits key label timeoutSecs now)).discard
  | revoke key label timeoutSecs => exact Op.Commits.keepsOnError (revoke_commits key label timeoutSecs)

/-- Whatever is asked for but a removal, in whatever world, and whatever edit is made: where it ends
in an error, the inventory is what it was. A refused edit leaves everything else alone, too. -/
theorem inventory_of_error (vault : Path) (w : World) (e : Error) :
    (∀ r : Request, r.isRemoval = false → (outcome (r.run vault) w).1 = .error e →
      (r.after vault w).inventory = w.inventory) ∧
    ∀ c : Edit, (outcome c.run w).1 = .error e → (outcome c.run w).2 = w := by
  constructor
  · intro r stays failed
    exact keepsOnError vault stays w e failed
  · intro c failed
    rw [Edit.run, Op.outcome_edit] at failed ⊢
    dsimp only at failed ⊢
    rw [c.atomic_work w.inventory e failed]

/-- A world with a name given twice, in which a tool succeeds and leaves a file that holds no key. -/
def misledWorld : World :=
  let key (fingerprint : String) : Key :=
    ⟨"work", .ed25519, some 256, "", fingerprint, "keys/work", "keys/work.pub", "", ⟨0, 0⟩, none,
      .active, none, none, true, []⟩
  { inventory := ⟨1, [key "SHA256:one", key "SHA256:two"], [], []⟩
    disk := Disk.emptyDisk
    installed := [Call.keyMaker]
    passesNul := true
    replies := []
    usualReply := .ran ⟨some 0, "", ""⟩ ⟨some "SECRET\n", some "no key\n"⟩
    calls := [] }

/-- A rotation that fails when the tool was called and has left files. -/
def misledRotation : Request := .rotate ⟨"work", some "next", none, none, none, none⟩ ⟨0, 0⟩

/-- A deployment on a host that is not on record. -/
def strayDeployment : Edit := .recordDeployment "work" "web" .manual ⟨0, 0⟩

theorem inventory_of_misledRotation :
    ¬ misledWorld.inventory.Consistent ∧
      (misledRotation.after "vault" misledWorld).disk.exists_ "vault/keys/next.pub" = true ∧
      (misledRotation.after "vault" misledWorld).inventory = misledWorld.inventory ∧
      (outcome strayDeployment.run misledWorld).2 = misledWorld := by
  have ended : (outcome (misledRotation.run "vault") misledWorld).1 =
        .error (.invalidPublicKey "unsupported key type 'no'") ∧
      (misledRotation.after "vault" misledWorld).disk.exists_ "vault/keys/next.pub" = true := by
    decide +kernel
  have refused : (outcome strayDeployment.run misledWorld).1 = .error (.hostNotFound "web") := by
    decide
  refine ⟨fun sound => ?_, ended.2, ?_, ?_⟩
  · have clean := Inventory.check_eq_nil_iff.mpr sound
    revert clean
    decide
  · exact (inventory_of_error "vault" misledWorld _).1 misledRotation rfl ended.1
  · exact (inventory_of_error "vault" misledWorld _).2 strayDeployment refused

end Request

end Keyring

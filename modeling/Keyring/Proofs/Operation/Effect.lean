import Keyring.Lifecycle.Import
import Keyring.Lifecycle.Retire
import Keyring.Lifecycle.Rotate
import Keyring.Proofs.Inventory.Edits
import Keyring.Proofs.Inventory.Lookup
import Keyring.Proofs.Operation.Outcome
import Keyring.Remote.Deploy
import Keyring.Remote.Hosts

/-!
# What operations do to the inventory

For each operation on keys and hosts the one change of the inventory that it
commits, with what is known of the records in it. Everything about inventories
that change over time is read off these.
-/

namespace Keyring

open Op Time

theorem Name.isName_of_check {name : String} (h : Name.check name = .ok ()) :
    isName name = true := by
  unfold check at h
  split at h
  · assumption
  · cases h

/-! ## Keys made and taken in -/

namespace Lifecycle

/-- A key pair put on record under a name that was free, by a public half that could be read. -/
structure Enters (inv : Inventory) (name : String) (k : Key) (inv' : Inventory) : Prop where
  isName : Name.isName name = true
  free : inv.findKey? name = none
  record : ∃ text pub comment privateFile publicFile createdAt expiresAt managed tags,
    PublicKey.ofText text = .ok pub ∧
      k = recordOf name pub comment privateFile publicFile createdAt expiresAt managed tags
  added : inv' = { inv with keys := inv.keys ++ [k] }

theorem Enters.name_eq {inv inv' : Inventory} {name : String} {k : Key}
    (enters : Enters inv name k inv') : k.name = name := by
  obtain ⟨_, _, _, _, _, _, _, _, _, _, rfl⟩ := enters.record
  rfl

theorem insertKey_eq_ok {inv inv' : Inventory} {k : Key} (h : inv.insertKey k = .ok inv') :
    inv.findKey? k.name = none ∧ inv' = { inv with keys := inv.keys ++ [k] } := by
  rw [Inventory.insertKey_eq] at h
  split at h
  · cases h
  · rename_i free
    exact ⟨free, (Except.ok.inj h).symm⟩

theorem isName_of_checkNew {inv : Inventory} {d : Disk} {vault : Path} {req : NewKey}
    {bits : Option Nat} (h : checkNew inv d vault req = .ok bits) : Name.isName req.name = true := by
  unfold checkNew at h
  cases named : Name.check req.name with
  | error e => simp [named, bind, Except.bind] at h
  | ok u => exact Name.isName_of_check named

theorem isName_of_checkImport {inv : Inventory} {d : Disk} {req : ImportedKey}
    (h : checkImport inv d req = .ok ()) : Name.isName req.name = true := by
  unfold checkImport at h
  cases named : Name.check req.name with
  | error e => simp [named, bind, Except.bind] at h
  | ok u => exact Name.isName_of_check named

/-- A key pair made for a name: its files are those of the name in the vault, and its days are counted
from now. -/
structure Makes (vault : Path) (req : NewKey) (now : Instant) (inv : Inventory) (k : Key)
    (inv' : Inventory) : Prop where
  enters : Enters inv req.name k inv'
  privateFile : k.privateFile = Layout.privateFile vault req.name
  publicFile : k.publicFile = Layout.publicFile vault req.name
  createdAt : k.createdAt = now
  expiresAt : expiryFrom now req.ttlDays = .ok k.expiresAt

theorem generate_commits (vault : Path) (req : NewKey) (now : Instant) (inv : Inventory) :
    Commits inv (Makes vault req now inv) (generate vault req now) := by
  unfold generate
  refine Commits.get fun w same => Commits.ofExcept fun bits checked => ?_
  refine Commits.after (KeepsInventory.onDisk _) fun _ => ?_
  refine Commits.after (keepsInventory_call _ _ _) fun output => Commits.ofExcept fun _ _ => ?_
  refine Commits.after (KeepsInventory.onDisk _) fun _ => ?_
  refine Commits.after KeepsInventory.disk fun d => Commits.ofExcept fun pub read => ?_
  refine Commits.ofExcept fun expiresAt due => ?_
  refine Commits.changedThen (InventoryM.atomic_insertKey _) fun inv' inserted => ?_
  obtain ⟨free, added⟩ := insertKey_eq_ok inserted
  have line : ∃ text, PublicKey.ofText text = .ok pub := by
    unfold readPublicFile at read
    split at read
    · exact ⟨_, read⟩
    · cases read
  obtain ⟨text, parsed⟩ := line
  exact ⟨⟨isName_of_checkNew checked, free,
    ⟨text, pub, _, _, _, _, _, _, _, parsed, rfl⟩, added⟩, rfl, rfl, rfl, due⟩

theorem keepsInventory_derivePublicLine (privateFile : Path) :
    KeepsInventory (derivePublicLine privateFile) :=
  KeepsInventory.bind (keepsInventory_call _ _ _) fun _ =>
    KeepsInventory.bind (KeepsInventory.ofExcept _) fun _ => KeepsInventory.pure _

theorem keepsInventory_publicLineOf (req : ImportedKey) : KeepsInventory (publicLineOf req) := by
  unfold publicLineOf
  split
  · exact KeepsInventory.pure _
  refine KeepsInventory.bind KeepsInventory.disk fun d => ?_
  split
  · exact KeepsInventory.bind (KeepsInventory.onDisk _) fun _ => KeepsInventory.pure _
  · exact KeepsInventory.bind (keepsInventory_derivePublicLine _) fun _ => KeepsInventory.pure _

theorem keepsInventory_keepPublicFile (vault : Path) (name : String) (pub : PublicKey)
    (found : Option Path) : KeepsInventory (keepPublicFile vault name pub found) := by
  unfold keepPublicFile
  split
  · exact KeepsInventory.pure _
  · exact KeepsInventory.bind (KeepsInventory.onDisk _) fun _ => KeepsInventory.pure _

/-- A key pair taken in under a name: it is as old as its private file may be, and its days are counted
from then. -/
structure Imports (req : ImportedKey) (now : Instant) (inv : Inventory) (k : Key) (inv' : Inventory) :
    Prop where
  enters : Enters inv req.name k inv'
  createdAt : ∃ d, creationTime d req.privateFile now = .ok k.createdAt
  expiresAt : expiryFrom k.createdAt req.ttlDays = .ok k.expiresAt

theorem importKey_commits (vault : Path) (req : ImportedKey) (now : Instant) (inv : Inventory) :
    Commits inv (Imports req now inv) (importKey vault req now) := by
  unfold importKey
  refine Commits.get fun w same => Commits.ofExcept fun _ checked => ?_
  refine Commits.after (keepsInventory_publicLineOf req) fun source => ?_
  refine Commits.ofExcept fun pub parsed => Commits.ask fun _ _ => ?_
  refine Commits.after (keepsInventory_keepPublicFile _ _ _ _) fun publicFile => ?_
  refine Commits.after KeepsInventory.disk fun d => Commits.ofExcept fun createdAt aged => ?_
  refine Commits.ofExcept fun expiresAt due => ?_
  refine Commits.changedThen (InventoryM.atomic_insertKey _) fun inv' inserted => ?_
  obtain ⟨free, added⟩ := insertKey_eq_ok inserted
  exact ⟨⟨isName_of_checkImport checked, free,
    ⟨_, pub, _, _, _, _, _, _, _, parsed, rfl⟩, added⟩, ⟨d, aged⟩, due⟩

/-! ## Rotation -/

/-- Two keys of an inventory linked, the hosts of the old one logged in to with the new one. -/
def linkRotation (inv : Inventory) (old new : String) : Inventory :=
  let inv := inv.changeKey old fun k => { k with status := .rotated, rotatedTo := some new }
  let inv := inv.changeKey new fun k => { k with rotatedFrom := some old }
  { inv with hosts := inv.hosts.map fun h =>
      if h.identity = some old then { h with identity := some new } else h }

/-- Where both keys are on record, nothing is in the way of the links once the first is written. -/
theorem outcome_link {old new : String} {k made : Key} {w : World} (apart : new ≠ old)
    (oldFound : w.inventory.findKey? old = some k) (newFound : w.inventory.findKey? new = some made) :
    outcome (link old new) w =
      (.ok ⟨old, { made with rotatedFrom := some old }, w.inventory.hostNamesOf old,
          (w.inventory.hostsUsing old).map (·.label)⟩,
        { w with inventory := linkRotation w.inventory old new }) := by
  have named : ∀ k, (followedBy new k).name = k.name := fun _ => rfl
  have stillFound : (w.inventory.changeKey old (followedBy new)).findKey? new = some made :=
    (Inventory.findKey?_changeKey_of_ne named apart).trans newFound
  unfold link
  rw [outcome_bind, outcome_edit_made (InventoryM.atomic_alterKey _ _), ← Inventory.alterKey,
    Inventory.alterKey_eq_ok oldFound]
  dsimp only
  rw [outcome_bind, outcome_edit_made (InventoryM.atomic_alterKey _ _), ← Inventory.alterKey,
    Inventory.alterKey_eq_ok stillFound]
  rfl

/-- An active key followed by a new one. -/
structure Rotates (inv : Inventory) (req : Rotation) (o : RotationOutcome) (inv' : Inventory) :
    Prop where
  succession : ∃ old made mid, inv.activeKey req.name = .ok old ∧
    Enters inv made.name made mid ∧ o.old = old.name ∧
    o.new = { made with rotatedFrom := some old.name } ∧
    inv' = linkRotation mid old.name made.name
  redeploys : o.hostsToRedeploy = inv.hostNamesOf o.old

/-- Once the new key is on record, the old one is still found, under another name. -/
theorem Enters.lookups {inv mid : Inventory} {name oldName : String} {old made : Key}
    (entered : Enters inv name made mid) (active : inv.activeKey oldName = .ok old) :
    name ≠ old.name ∧ mid.findKey? old.name = some old ∧ mid.findKey? name = some made := by
  have found := Inventory.findKey?_of_activeKey active
  have free : inv.findKey? made.name = none := by rw [entered.name_eq]; exact entered.free
  refine ⟨?_, ?_, ?_⟩
  · intro same
    rw [← same, entered.free] at found
    cases found
  · rw [entered.added]
    exact Inventory.findKey?_append_of_some found
  · rw [entered.added, ← entered.name_eq]
    exact Inventory.findKey?_append_self free

/-- The old key is changed first, and the change of the new one leaves it alone. -/
theorem linkRotation_lookups {inv : Inventory} {old new : String} {k made : Key} (apart : new ≠ old)
    (oldFound : inv.findKey? old = some k) (newFound : inv.findKey? new = some made) :
    (linkRotation inv old new).findKey? old = some (followedBy new k) ∧
      (linkRotation inv old new).findKey? new = some (following old made) := by
  have marked : ∀ k, (followedBy new k).name = k.name := fun _ => rfl
  have linked : ∀ k, (following old k).name = k.name := fun _ => rfl
  constructor
  · have first := Inventory.findKey?_changeKey_self marked oldFound
    exact (Inventory.findKey?_changeKey_of_ne linked apart.symm).trans first
  · have first := (Inventory.findKey?_changeKey_of_ne marked apart).trans newFound
    exact Inventory.findKey?_changeKey_self linked first

/-- The links of a rotation follow the making of the new key, and cannot be refused. -/
theorem Enters.outcome_link {inv : Inventory} {name oldName : String} {old made : Key} {w : World}
    (entered : Enters inv name made w.inventory) (active : inv.activeKey oldName = .ok old) :
    outcome (link old.name name) w =
      (.ok ⟨old.name, { made with rotatedFrom := some old.name }, inv.hostNamesOf old.name,
          (inv.hostsUsing old.name).map (·.label)⟩,
        { w with inventory := linkRotation w.inventory old.name name }) := by
  obtain ⟨apart, oldFound, newFound⟩ := entered.lookups active
  rw [Lifecycle.outcome_link apart oldFound newFound, entered.added]
  rfl

/-- Nothing is done about a key that is not in use. -/
theorem outcome_rotate_refused {vault : Path} {req : Rotation} {now : Instant} {w : World} {e : Error}
    (refused : w.inventory.activeKey req.name = .error e) :
    outcome (rotate vault req now) w = (.error e, w) := by
  unfold rotate
  rw [outcome_bind, outcome_ask, refused]

/-- A rotation of a key in use makes the new key and links both. -/
theorem outcome_rotate_of_active {vault : Path} {req : Rotation} {now : Instant} {w : World} {old : Key}
    {newName : String} (active : w.inventory.activeKey req.name = .ok old)
    (named : req.newName.getD (rotationName w.inventory w.disk vault old.name now) = newName) :
    outcome (rotate vault req now) w =
      outcome (generate vault (successor old req newName) now >>= fun _ => link old.name newName) w := by
  unfold rotate
  rw [outcome_bind, outcome_ask, active]
  dsimp only
  rw [outcome_bind, outcome_inventory]
  dsimp only
  rw [outcome_bind, outcome_disk]
  dsimp only
  rw [named]

/-- It fails as the making of the new key does. Once that is made, the links cannot be refused. -/
theorem outcome_rotate {vault : Path} {req : Rotation} {now : Instant} {w : World} {old : Key}
    {newName : String} (active : w.inventory.activeKey req.name = .ok old)
    (named : req.newName.getD (rotationName w.inventory w.disk vault old.name now) = newName) :
    outcome (rotate vault req now) w =
      match outcome (generate vault (successor old req newName) now) w with
      | (.ok made, w') =>
        (.ok ⟨old.name, following old.name made, w.inventory.hostNamesOf old.name,
            (w.inventory.hostsUsing old.name).map (·.label)⟩,
          { w' with inventory := linkRotation w'.inventory old.name newName })
      | (.error e, w') => (.error e, w') := by
  rw [outcome_rotate_of_active active named, outcome_bind]
  have committed := generate_commits vault (successor old req newName) now w.inventory w rfl
  rcases made : outcome (generate vault (successor old req newName) now) w with ⟨e | k, w'⟩
  · rfl
  · rw [made] at committed
    exact committed.enters.outcome_link active

/-- What holds whenever a new key was made for an active one and both were linked holds of a rotation. -/
theorem commits_rotate {vault : Path} {req : Rotation} {now : Instant} {inv : Inventory}
    {Q : RotationOutcome → Inventory → Prop} (linked : ∀ old newName made mid, inv.activeKey req.name = .ok old →
      Makes vault (successor old req newName) now inv made mid →
      Q ⟨old.name, following old.name made, inv.hostNamesOf old.name, (inv.hostsUsing old.name).map (·.label)⟩
        (linkRotation mid old.name made.name)) : Commits inv Q (rotate vault req now) := by
  unfold rotate
  refine Commits.ask fun old active => Commits.inventory ?_
  refine Commits.after KeepsInventory.disk fun d => ?_
  generalize req.newName.getD _ = newName
  refine Commits.andThen (generate_commits vault _ now inv) fun made w makes => ?_
  have named : made.name = newName := makes.enters.name_eq
  subst named
  exact ⟨_, _, makes.enters.outcome_link active, linked old _ made w.inventory active makes⟩

theorem rotate_commits (vault : Path) (req : Rotation) (now : Instant) (inv : Inventory) :
    Commits inv (Rotates inv req) (rotate vault req now) := by
  refine commits_rotate fun old newName made mid active makes => ?_
  have named : made.name = newName := makes.enters.name_eq
  subst named
  exact ⟨⟨old, made, mid, active, makes.enters, rfl, rfl, rfl⟩, rfl⟩

theorem outcome_revokeKey (name : String) (w : World) :
    outcome (revokeKey name) w = match w.inventory.key name with
      | .error e => (.error e, w)
      | .ok _ => (.ok (w.inventory.hostNamesOf name), { w with
          inventory := w.inventory.changeKey name fun k => { k with status := .revoked } }) := by
  rw [revokeKey, outcome_edit, outcome_bind, InventoryM.alterKey, outcome_bind, InventoryM.outcome_ask]
  cases w.inventory.key name <;> rfl

theorem revokeKey_commits (name : String) (inv : Inventory) :
    Commits inv (fun hosts inv' => (∃ k, inv.key name = .ok k) ∧ hosts = inv.hostNamesOf name ∧
      inv' = inv.changeKey name fun k => { k with status := .revoked }) (revokeKey name) := by
  intro w same
  rw [outcome_revokeKey, same]
  cases inv.key name with
  | error e => exact same
  | ok k => exact ⟨⟨k, rfl⟩, rfl, rfl⟩

theorem outcome_setExpiry (name : String) (ttlDays : Option Nat) (now : Instant) (w : World) :
    outcome (setExpiry name ttlDays now) w = match w.inventory.key name with
      | .error e => (.error e, w)
      | .ok _ => match expiryFrom now ttlDays with
        | .error e => (.error e, w)
        | .ok expiresAt => (.ok expiresAt, { w with
            inventory := w.inventory.changeKey name fun k => { k with expiresAt := expiresAt } }) := by
  rw [setExpiry, outcome_edit, outcome_bind, InventoryM.outcome_ask]
  cases w.inventory.key name with
  | error e => rfl
  | ok k =>
    dsimp only
    rw [outcome_bind, InventoryM.outcome_ofExcept]
    cases expiryFrom now ttlDays <;> rfl

theorem setExpiry_commits (name : String) (ttlDays : Option Nat) (now : Instant) (inv : Inventory) :
    Commits inv (fun expiresAt inv' => (∃ k, inv.key name = .ok k) ∧
      expiryFrom now ttlDays = .ok expiresAt ∧
      inv' = inv.changeKey name fun k => { k with expiresAt := expiresAt })
      (setExpiry name ttlDays now) := by
  intro w same
  rw [outcome_setExpiry, same]
  cases inv.key name with
  | error e => exact same
  | ok k =>
    cases due : expiryFrom now ttlDays with
    | error e => exact same
    | ok t => exact ⟨⟨k, rfl⟩, rfl, rfl⟩

/-- A removal takes the record first. When the files cannot be deleted it fails all the same, with
the record gone. -/
theorem removeKey_inventory (vault : Path) (name : String) (force deleteFiles : Bool) (w : World) :
    match w.inventory.removeKey name force with
    | .ok (_, inv') => (outcome (removeKey vault name force deleteFiles) w).2.inventory = inv'
    | .error e => outcome (removeKey vault name force deleteFiles) w = (.error e, w) := by
  unfold removeKey
  rw [outcome_bind, outcome_edit_made (InventoryM.atomic_removeKey _ _), ← Inventory.removeKey]
  rcases w.inventory.removeKey name force with e | ⟨k, inv'⟩
  · rfl
  · have keeps : KeepsInventory (do
        if deleteFiles then
          let keysDir := (← Op.disk).canonicalOrSame (Layout.keysDir vault)
          Op.onDisk ((filesToDelete keysDir k).forM deleteFile)
        return k) := by
      split
      · exact KeepsInventory.bind KeepsInventory.disk fun _ =>
          KeepsInventory.bind (KeepsInventory.onDisk _) fun _ => KeepsInventory.pure _
      · exact KeepsInventory.pure _
    exact keeps _

end Lifecycle

namespace Remote

theorem addHost_commits (req : NewHost) (here : Option String) (now : Instant) (inv : Inventory) :
    Commits inv (fun h inv' => hostOf req here now = .ok h ∧ inv.insertHost h = .ok inv')
      (addHost req here now) :=
  Commits.ofExcept fun _ made =>
    Commits.changedThen (InventoryM.atomic_insertHost _) fun _ inserted => ⟨made, inserted⟩

/-- A host with all fields written that a change gives. -/
def HostChange.apply (c : HostChange) (h : Host) : Host :=
  { h with
    hostname := c.hostname.getD h.hostname
    user := c.user.getD h.user
    port := c.port.getD h.port
    identity := if c.clearIdentity then none else c.identity.or h.identity
    tags := c.tags.getD h.tags }

/-- Work on a host on record that cannot fail and applies a function to it, whatever was applied before. -/
structure Writes (label : String) (work : Host → InventoryM Host) (f : Host → Host) : Prop where
  named : ∀ h, (f h).label = h.label
  after : ∀ {before : Host → Host}, (∀ h, (before h).label = h.label) → ∀ h inv,
    outcome (work (before h)) (Inventory.changeHost inv label before) =
      (.ok (f (before h)), inv.changeHost label fun h => f (before h))

namespace Writes

variable {label : String} {work next : Host → InventoryM Host} {f g : Host → Host}

theorem writeField {α : Type} (given : Option α) (write : α → Host → Host)
    (named : ∀ a h, (write a h).label = h.label) :
    Writes label (writeField label given write) fun h => given.elim h (write · h) where
  named := fun h => match given with
    | none => rfl
    | some a => named a h
  after := fun before h inv => by
    cases given with
    | none => rfl
    | some a =>
      rw [Remote.writeField, outcome_bind, outcome_modify]
      dsimp only
      rw [Inventory.changeHost_changeHost before, outcome_pure]
      rfl

theorem andThen (first : Writes label work f) (second : Writes label next g) :
    Writes label (fun h => work h >>= next) fun h => g (f h) where
  named := fun h => (second.named _).trans (first.named h)
  after := fun before h inv => by
    rw [outcome_bind, first.after before]
    exact second.after (fun h => (first.named _).trans (before h)) h inv

theorem of_eq (writes : Writes label work f) (same : ∀ h, f h = g h) : Writes label work g :=
  funext same ▸ writes

theorem outcome_eq (writes : Writes label work f) (h : Host) (inv : Inventory) :
    outcome (work h) inv = (.ok (f h), inv.changeHost label f) := by
  have alone := @writes.after (fun h => h) (fun _ => rfl) h inv
  rw [Inventory.changeHost_id] at alone
  exact alone

end Writes

theorem writes_change (label : String) (change : HostChange) : Writes label (change.write label) change.apply := by
  have written : Writes label _ _ :=
    (Writes.writeField change.hostname (fun s h => { h with hostname := s }) fun _ _ => rfl).andThen <|
    (Writes.writeField change.user (fun s h => { h with user := s }) fun _ _ => rfl).andThen <|
    (Writes.writeField change.port (fun n h => { h with port := n }) fun _ _ => rfl).andThen <|
    (Writes.writeField (if change.clearIdentity then some none else change.identity.map some)
      (fun i h => { h with identity := i }) fun _ _ => rfl).andThen <|
    Writes.writeField change.tags (fun tags h => { h with tags := tags }) fun _ _ => rfl
  refine written.of_eq fun h => ?_
  rcases change with ⟨_ | _, _ | _, _ | _, _ | _, _ | _, _ | _⟩ <;> rfl

theorem outcome_updateHost (label : String) (change : HostChange) (w : World) :
    outcome (updateHost label change) w = match change.identity.mapM w.inventory.key with
      | .error e => (.error e, w)
      | .ok _ => match w.inventory.host label with
        | .error e => (.error e, w)
        | .ok h => (.ok (change.apply h), { w with
            inventory := w.inventory.changeHost label change.apply }) := by
  have changing : outcome (do
      let h ← InventoryM.ask (·.host label)
      change.write label h : InventoryM Host) w.inventory = match w.inventory.host label with
      | .error e => (.error e, w.inventory)
      | .ok h => (.ok (change.apply h), w.inventory.changeHost label change.apply) := by
    rw [outcome_bind, InventoryM.outcome_ask]
    cases w.inventory.host label with
    | error e => rfl
    | ok h => exact (writes_change label change).outcome_eq h w.inventory
  rw [updateHost, outcome_edit]
  cases change.identity with
  | none =>
    dsimp only at changing ⊢
    rw [changing]
    cases w.inventory.host label <;> rfl
  | some identity =>
    have looked : (some identity).mapM w.inventory.key = some <$> w.inventory.key identity := rfl
    dsimp only
    rw [outcome_bind, InventoryM.outcome_ask, looked]
    cases w.inventory.key identity with
    | error e => rfl
    | ok k =>
      dsimp only
      rw [changing]
      cases w.inventory.host label <;> rfl

theorem updateHost_commits (label : String) (change : HostChange) (inv : Inventory) :
    Commits inv (fun h' inv' => (∀ i, change.identity = some i → ∃ k, inv.key i = .ok k) ∧
      (∃ h, inv.host label = .ok h ∧ h' = change.apply h) ∧ inv' = inv.changeHost label change.apply)
      (updateHost label change) := by
  intro w same
  rw [outcome_updateHost, same]
  rcases known : change.identity.mapM inv.key with e | identity
  · exact same
  cases inv.host label with
  | error e => exact same
  | ok h =>
    refine ⟨?_, ⟨h, rfl, rfl⟩, rfl⟩
    intro i is
    have looked : change.identity.mapM inv.key = some <$> inv.key i := by rw [is]; rfl
    rw [looked] at known
    cases key : inv.key i with
    | error e => rw [key] at known; cases known
    | ok k => exact ⟨k, rfl⟩

theorem removeHost_commits (label : String) (inv : Inventory) :
    Commits inv (fun h inv' => inv.removeHost label = .ok (h, inv')) (removeHost label) :=
  Commits.made (InventoryM.atomic_removeHost _) fun _ _ removed => removed

/-- What is recorded of a check changes nothing unless the host is on record. -/
theorem outcome_recordCheck (label : String) (error : Option String) (now : Instant) (w : World) :
    outcome (Op.edit do
      let _ ← InventoryM.ask (·.host label)
      modify (recordCheck · label error now)) w = match w.inventory.host label with
      | .error e => (.error e, w)
      | .ok _ => (.ok (), { w with inventory := recordCheck w.inventory label error now }) := by
  rw [outcome_edit, outcome_bind, InventoryM.outcome_ask]
  cases w.inventory.host label <;> rfl

theorem testConnection_commits (label : String) (timeoutSecs : Nat) (now : Instant)
    (inv : Inventory) :
    Commits inv (fun o inv' => (∃ h, inv.host label = .ok h) ∧
      inv' = recordCheck inv label o.error now) (testConnection label timeoutSecs now) := by
  refine Commits.inventory (Commits.ofExcept fun h known => ?_)
  refine Commits.after (keepsInventory_call _ _ _) fun output => ?_
  intro w same
  rw [outcome_bind, outcome_recordCheck, same, known]
  exact ⟨⟨h, rfl⟩, rfl⟩

theorem deploy_commits (key label : String) (auth : Option String) (now : Instant)
    (inv : Inventory) :
    Commits inv (fun _ inv' => (∃ k, inv.activeKey key = .ok k) ∧
      inv.recordDeployment key label .copied now = .ok inv') (deploy key label auth now) := by
  refine Commits.inventory (Commits.ofExcept fun k active => ?_)
  refine Commits.ofExcept fun h _ => Commits.ofExcept fun a _ => ?_
  refine Commits.after (keepsInventory_call _ _ _) fun output => ?_
  dsimp only
  split
  · exact fun _ same => same
  · exact Commits.changed (InventoryM.atomic_recordDeployment _ _ _ _) fun _ recorded => ⟨⟨k, active⟩, recorded⟩

theorem outcome_markDeployed (key label : String) (now : Instant) (w : World) :
    outcome (markDeployed key label now) w = match w.inventory.activeKey key with
      | .error e => (.error e, w)
      | .ok _ => match w.inventory.recordDeployment key label .manual now with
        | .error e => (.error e, w)
        | .ok inv => (.ok (), { w with inventory := inv }) := by
  have recording := outcome_edit_changed (InventoryM.atomic_recordDeployment key label .manual now) w
  rw [markDeployed, outcome_edit, outcome_bind, InventoryM.outcome_ask]
  cases w.inventory.activeKey key with
  | error e => rfl
  | ok k =>
    dsimp only
    rw [← outcome_edit, recording, ← Inventory.recordDeployment]
    cases w.inventory.recordDeployment key label .manual now <;> rfl

theorem markDeployed_commits (key label : String) (now : Instant) (inv : Inventory) :
    Commits inv (fun _ inv' => (∃ k, inv.activeKey key = .ok k) ∧
      inv.recordDeployment key label .manual now = .ok inv') (markDeployed key label now) := by
  intro w same
  rw [outcome_markDeployed, same]
  cases inv.activeKey key with
  | error e => exact same
  | ok k =>
    cases recorded : inv.recordDeployment key label .manual now with
    | error e => exact same
    | ok inv' => exact ⟨⟨k, rfl⟩, rfl⟩

theorem verify_commits (key label : String) (timeoutSecs : Nat) (now : Instant) (inv : Inventory) :
    Commits inv (fun found inv' =>
      if found then inv.markVerified key label now = .ok inv' else inv' = inv)
      (verify key label timeoutSecs now) := by
  refine Commits.inventory (Commits.ofExcept fun pair _ => ?_)
  refine Commits.after (keepsInventory_call _ _ _) fun output => ?_
  split
  · exact Commits.changedThen (InventoryM.atomic_markVerified _ _ _) fun _ marked => marked
  · exact Commits.pure rfl
  · exact fun _ same => same

theorem revoke_commits (key label : String) (timeoutSecs : Nat) (inv : Inventory) :
    Commits inv (fun _ inv' => ∃ d, inv.removeDeployment key label = .ok (d, inv'))
      (revoke key label timeoutSecs) := by
  refine Commits.inventory (Commits.ofExcept fun pair _ => ?_)
  refine Commits.after (keepsInventory_call _ _ _) fun output => ?_
  dsimp only
  split
  · exact fun _ same => same
  · exact Commits.andThen (P := fun d inv' => inv.removeDeployment key label = .ok (d, inv'))
      (Commits.made (InventoryM.atomic_removeDeployment _ _) fun _ _ removed => removed)
      fun d w removed => ⟨(), w, rfl, d, removed⟩

end Remote

end Keyring

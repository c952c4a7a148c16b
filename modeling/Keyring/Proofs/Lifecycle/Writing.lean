import Keyring.Lifecycle.Rotate
import Keyring.Proofs.Lifecycle.PublicHalf

/-!
# What new keys do to files

A key that is made or taken in leaves files at its own names in the directory of
keys, and every other file as it was (`Writes`). Of `ssh-keygen` no more is
assumed than that it writes the file of `-f` and the one beside it.
-/

namespace Keyring

namespace Disk

variable {vault : Path} {names more : List String} {touched : Place → Prop} {d d' d'' : Disk}
  {at_ : Place} {name : String} {content : Content} {mode : Nat}

/-! ## Writing under given names -/

/-- A place that one of the names in the directory of keys leads to. -/
def InKeys (vault : Path) (names : List String) (d : Disk) (at_ : Place) : Prop :=
  ∃ name ∈ names, d.place true ((Layout.keysDir vault).join name) = .ok at_

/-- A later state, where files have changed under some names in the directory of keys only. -/
structure Writes (vault : Path) (names : List String) (d d' : Disk) : Prop where
  later : Later (InKeys vault names d') d d'
  tidy : Tidy vault d'

theorem InKeys.later (later : Later touched d d') (inKeys : InKeys vault names d at_) :
    InKeys vault names d' at_ := by
  obtain ⟨name, member, led⟩ := inKeys
  exact ⟨name, member, later.place led⟩

namespace Writes

theorem refl (sound : d.WellFormed) (tidy : Tidy vault d) : Writes vault names d d :=
  ⟨.refl sound, tidy⟩

theorem trans (first : Writes vault names d d') (second : Writes vault names d' d'') :
    Writes vault names d d'' where
  later := (first.later.mono fun _ inKeys => inKeys.later second.later).trans second.later
  tidy := second.tidy

theorem mono (writes : Writes vault names d d') (among : ∀ name ∈ names, name ∈ more) :
    Writes vault more d d' where
  later := writes.later.mono fun _ ⟨name, member, led⟩ => ⟨name, among name member, led⟩
  tidy := writes.tidy

/-- A change under the names keeps the directory tidy. -/
theorem of_touched (tidy : Tidy vault d) (isName : ∀ name ∈ names, IsName name)
    (later : Later touched d d') (inKeys : ∀ at_, touched at_ → InKeys vault names d at_) :
    Writes vault names d d' := by
  refine ⟨later.mono fun at_ here => (inKeys at_ here).later later, tidy.later later.evolves ?_⟩
  intro keys name e entry isFile
  by_cases here : touched (keys ++ [name])
  · obtain ⟨other, member, led⟩ := inKeys _ here
    have atNow := later.place led
    obtain ⟨keys', ledKeys, _, same⟩ := tidy.place_of_join later.evolves (isName other member) atNow
    obtain ⟨rfl, _⟩ := List.append_inj' same rfl
    exact .inr ledKeys
  · rw [later.files _ here e isFile] at entry
    exact .inl (by simp [entry])

theorem of_grows (tidy : Tidy vault d) (grows : Grows d d') : Writes vault names d d' := by
  have nothing : Writes vault [] d d' := of_touched tidy (by simp) grows fun _ => False.elim
  exact nothing.mono (by simp)

end Writes

/-- From a disk that is well formed and tidy, writing under some names. -/
def WritesFrom (vault : Path) (names : List String) (d d' : Disk) : Prop :=
  d.WellFormed → Tidy vault d → Writes vault names d d'

theorem WritesFrom.trans (first : WritesFrom vault names d d') (second : WritesFrom vault names d' d'') :
    WritesFrom vault names d d'' := by
  intro sound tidy
  have written := first sound tidy
  exact written.trans (second written.later.sound written.tidy)

theorem WritesFrom.refl : WritesFrom vault names d d := fun sound tidy => .refl sound tidy

/-- The directory of keys is made, and closed to others. -/
def prepareKeys (vault : Path) : DiskM Unit := do
  ensureDirectory (Layout.keysDir vault)
  setMode (Layout.keysDir vault) 0o700

theorem grows_prepareKeys (sound : d.WellFormed) (vault : Path) : Grows d (outcome (prepareKeys vault) d).2 := by
  have grows : Grows d (outcome (ensureDirectory (Layout.keysDir vault)) d).2 :=
    keeps_ensureDirectory _ d sound
  rw [prepareKeys, outcome_bind]
  rcases made : outcome (ensureDirectory (Layout.keysDir vault)) d with ⟨e | u, d₁⟩
  · rw [made] at grows
    exact grows
  · rw [made] at grows
    obtain ⟨keys, led, there⟩ := isDirectory_iff.mp (isDirectory_of_ensureKeysDir sound made)
    refine grows.trans ((keeps_setMode grows.sound).mono ?_)
    rintro at_ ⟨e, found, isFile⟩
    obtain ⟨led', entry⟩ := find_eq_ok_iff.mp found
    rw [led] at led'
    cases led'
    rw [isDirectoryAt_of_file entry isFile] at there
    cases there

theorem writes_prepareKeys (vault : Path) : Moves (WritesFrom vault names) (prepareKeys vault) :=
  fun _ sound tidy => .of_grows tidy (grows_prepareKeys sound vault)

theorem writes_setMode (isName : ∀ name ∈ names, IsName name) (member : name ∈ names) (mode : Nat) :
    Moves (WritesFrom vault names) (setMode ((Layout.keysDir vault).join name) mode) := by
  intro d sound tidy
  refine .of_touched tidy isName (keeps_setMode sound) ?_
  rintro at_ ⟨e, found, _⟩
  exact ⟨name, member, (find_eq_ok_iff.mp found).1⟩

theorem writes_writeThrough (isName : ∀ name ∈ names, IsName name) (member : name ∈ names)
    (content : Content) :
    Moves (WritesFrom vault names) (writeThrough ((Layout.keysDir vault).join name) content) := by
  intro d sound tidy
  exact .of_touched tidy isName (keeps_writeThrough sound) fun at_ led => ⟨name, member, led⟩

/-- A file in the directory of keys put in place of another. -/
theorem writes_replaceFile (isName : ∀ name ∈ names, IsName name) (member : name ∈ names) :
    Moves (WritesFrom vault names) (replaceFile ((Layout.keysDir vault).join name) content) := by
  intro d sound tidy
  obtain ⟨d', run, replaces⟩ | ⟨e, failed, _⟩ :=
    outcome_replaceFile ((Layout.keysDir vault).join name) content d
  · rw [run]
    obtain ⟨at_, led, _, _⟩ := replaces.replaced
    obtain ⟨notLink, ledThrough⟩ := tidy.place_true sound (isName name member) led
    refine .of_touched tidy isName (replaces.later sound led notLink) ?_
    rintro here rfl
    exact ⟨name, member, ledThrough⟩
  · rw [failed]
    exact .refl sound tidy

theorem writes_writeWhole (isName : ∀ name ∈ names, IsName name) (member : name ∈ names) :
    Moves (WritesFrom vault names) (writeWhole ((Layout.keysDir vault).join name) content) := by
  have made : ∀ p, Moves (WritesFrom vault names) (ensureDirectory p) :=
    fun p d sound tidy => .of_grows tidy (keeps_ensureDirectory p d sound)
  have placed : Moves (WritesFrom vault names) (replaceFile ((Layout.keysDir vault).join name) content) :=
    writes_replaceFile isName member
  unfold writeWhole
  dsimp only
  split
  · refine Moves.bind (R := WritesFrom vault names) WritesFrom.trans (made _) fun _ => ?_
    refine Moves.bind (R := WritesFrom vault names) WritesFrom.trans (fun _ => .refl) fun d => ?_
    split
    · exact Moves.throw (fun _ => .refl) _
    · exact placed
  · exact placed

end Disk

/-- From one world to another, files were written under some names only. -/
def World.WritesTo (vault : Path) (names : List String) (w w' : World) : Prop :=
  Disk.WritesFrom vault names w.disk w'.disk

namespace World

variable {vault : Path} {names : List String} {w w' w'' : World}

open Disk

theorem WritesTo.refl : WritesTo vault names w w := WritesFrom.refl

theorem WritesTo.trans (first : WritesTo vault names w w') (second : WritesTo vault names w' w'') :
    WritesTo vault names w w'' := WritesFrom.trans first second

theorem WritesTo.of_same (disk : w'.disk = w.disk) : WritesTo vault names w w' := by
  rw [WritesTo, disk]
  exact .refl

end World

namespace Op

variable {vault : Path} {names : List String} {α β : Type}

open World Disk

theorem writesTo_onDisk {work : DiskM α} (writes : Moves (WritesFrom vault names) work) :
    Moves (WritesTo vault names) (Op.onDisk work) := by
  intro w
  have written := writes w.disk
  rw [outcome_onDisk]
  rcases run : outcome work w.disk with ⟨e | a, d⟩
  · rwa [run] at written
  · rwa [run] at written

theorem writesTo_pure (a : α) : Moves (WritesTo vault names) (pure a : Op α) := fun _ => .refl

theorem writesTo_bind {x : Op α} {f : α → Op β} (first : Moves (WritesTo vault names) x)
    (next : ∀ a, Moves (WritesTo vault names) (f a)) : Moves (WritesTo vault names) (x >>= f) :=
  Moves.bind (R := WritesTo vault names) WritesTo.trans first next

theorem writesTo_ofExcept {r : Except Error α} {f : α → Op β}
    (next : ∀ a, r = .ok a → Moves (WritesTo vault names) (f a)) :
    Moves (WritesTo vault names) (Op.ofExcept r >>= f) := by
  intro w
  rw [outcome_bind, Op.outcome_ofExcept]
  cases r with
  | error e => exact .refl
  | ok a => exact next a rfl w

theorem writesTo_ask (question : Inventory → Except Error α) :
    Moves (WritesTo vault names) (Op.ask question) := (Op.still_ask question).moves fun _ => .refl

theorem writesTo_edit (work : InventoryM α) : Moves (WritesTo vault names) (Op.edit work) :=
  moves_edit (fun _ _ => .of_same rfl) work

theorem writes_leavePair {name : String} (isName : ∀ n ∈ [name, name ++ ".pub"], IsName n) (made : KeyFiles) :
    Moves (WritesFrom vault [name, name ++ ".pub"]) (leavePair (Layout.privateFile vault name) made) := by
  have left : ∀ n ∈ [name, name ++ ".pub"], ∀ text,
      Moves (WritesFrom vault [name, name ++ ".pub"]) (leaveText ((Layout.keysDir vault).join n) text) := by
    rintro n member (_ | s)
    · exact fun _ => .refl
    · exact writes_writeThrough isName member _
  refine Moves.bind (R := WritesFrom vault [name, name ++ ".pub"]) WritesFrom.trans (left _ (by simp) _) fun _ => ?_
  rw [Layout.privateFile_append_pub (isName name (by simp)).plain]
  exact left _ (by simp) _

/-- A call writes under some names if the key that it may make is left there. -/
theorem writesTo_call (program : String) (args : List String) (stdin : Option String)
    (made : ∀ path files, (Call.mk program args stdin).madeKey? = some path →
      Moves (WritesFrom vault names) (leavePair path files)) :
    Moves (WritesTo vault names) (Op.call program args stdin) := by
  intro w
  have called : WritesTo vault names w (w.called ⟨program, args, stdin⟩) := .of_same rfl
  rw [outcome_call]
  split
  · exact .refl
  split
  · exact .refl
  split
  · exact called
  · exact called
  · rename_i output files _
    split
    · rename_i path makes
      refine called.trans (related_bind (R := WritesTo vault names) WritesTo.trans ?_ fun _ _ _ => .refl)
      exact writesTo_onDisk (made path files makes) _
    · exact called

end Op

namespace Lifecycle

open Op World Disk Time

variable {vault : Path} {names : List String} {name : String} {w : World}

theorem isName_pair (isName : Name.isName name = true) : ∀ n ∈ [name, name ++ ".pub"], Disk.IsName n := by
  intro n member
  rcases List.mem_cons.mp member with rfl | member
  · exact Name.isName_private isName
  · rw [List.mem_singleton.mp member]
    exact Name.isName_public isName

/-- The key that is asked for is made at its path, whatever its comment and its passphrase are. -/
theorem madeKey?_keygenArgs (req : NewKey) (bits : Option Nat) (comment : String) (path : Path) :
    (Call.mk Call.keyMaker (keygenArgs req bits comment path) none).madeKey? = some path := by
  cases bits <;>
    simp [keygenArgs, Call.madeKey?, Call.options, Call.optionsAfter, Call.valuedOptions, List.lookup_cons]

theorem generate_writes (vault : Path) (req : NewKey) (now : Instant) :
    Moves (WritesTo vault [req.name, req.name ++ ".pub"]) (generate vault req now) := by
  refine writesTo_bind (fun _ => .refl) fun w => writesTo_ofExcept fun bits checked => ?_
  have isName := isName_pair (isName_of_checkNew checked)
  refine writesTo_bind (writesTo_onDisk (writes_prepareKeys vault)) fun _ => ?_
  refine writesTo_bind ?_ fun output => writesTo_ofExcept fun _ _ => ?_
  · refine writesTo_call _ _ _ fun path files makes => ?_
    rw [madeKey?_keygenArgs] at makes
    cases makes
    exact writes_leavePair isName files
  refine writesTo_bind (writesTo_onDisk ?_) fun _ => ?_
  · exact writes_setMode isName (by simp) _
  refine writesTo_bind (fun _ => .refl) fun d => writesTo_ofExcept fun pub _ => ?_
  refine writesTo_ofExcept fun expiresAt _ => ?_
  exact writesTo_bind (writesTo_edit _) fun _ => writesTo_pure _

theorem checkFree_eq_ok {d : Disk} {path : Path} (free : checkFree d path = .ok ()) :
    d.exists_ path = false := by
  unfold checkFree at free
  split at free
  · cases free
  · rename_i notThere
    simpa using notThere

theorem free_of_checkNew {inv : Inventory} {d : Disk} {req : NewKey} {bits : Option Nat}
    (checked : checkNew inv d vault req = .ok bits) :
    ∀ n ∈ [req.name, req.name ++ ".pub"], d.exists_ ((Layout.keysDir vault).join n) = false := by
  simp only [checkNew, bind, Except.bind] at checked
  split at checked
  · cases checked
  split at checked
  · cases checked
  split at checked
  · cases checked
  split at checked
  · cases checked
  rename_i freePrivate
  split at checked
  · cases checked
  rename_i freePublic
  intro n member
  rcases List.mem_cons.mp member with rfl | member
  · exact checkFree_eq_ok freePrivate
  · rw [List.mem_singleton.mp member]
    exact checkFree_eq_ok freePublic

theorem generate_preserves {req : NewKey} {now : Instant} {at_ : Place} {e : Entry}
    (sound : w.disk.WellFormed) (tidy : Tidy vault w.disk)
    (entry : w.disk.entryAt at_ = some e) (isFile : e.isFile = true) :
    (outcome (generate vault req now) w).2.disk.entryAt at_ = some e := by
  have written := generate_writes vault req now w sound tidy
  rcases checked : checkNew w.inventory w.disk vault req with e' | bits
  · have refused : outcome (generate vault req now) w = (.error e', w) := by
      rw [generate, outcome_bind, outcome_get]
      dsimp only
      rw [outcome_bind, Op.outcome_ofExcept, checked]
    rwa [refused]
  · refine (written.later.files at_ ?_ e isFile).mpr entry
    rintro ⟨name, member, led⟩
    have isName := isName_pair (isName_of_checkNew checked)
    have before := tidy.place_of_file sound written.later.evolves (isName name member) led entry isFile
    have there : w.disk.exists_ ((Layout.keysDir vault).join name) = true :=
      exists_iff.mpr ⟨at_, e, before, entry⟩
    rw [free_of_checkNew checked name member] at there
    cases there

theorem disk_link (old new : String) (w : World) : (outcome (link old new) w).2.disk = w.disk := by
  have edit (name : String) (change : Key → Key) :
      Moves (fun w w' : World => w'.disk = w.disk) (Op.edit (InventoryM.alterKey name change)) :=
    moves_edit (fun _ _ => rfl) _
  have linked : Moves (fun w w' : World => w'.disk = w.disk) (link old new) :=
    Moves.bind (fun ab bc => bc.trans ab) (edit _ _) fun _ =>
      Moves.bind (fun ab bc => bc.trans ab) (edit _ _) fun _ _ => rfl
  exact linked w

/-- A rotation does to files what some making of a key does, or nothing. -/
theorem rotate_files (vault : Path) (req : Rotation) (now : Instant) (w : World) :
    (outcome (rotate vault req now) w).2.disk = w.disk ∨
      ∃ made, (outcome (rotate vault req now) w).2.disk = (outcome (generate vault made now) w).2.disk := by
  rw [rotate, outcome_bind, Op.outcome_ask]
  rcases w.inventory.activeKey req.name with e | old
  · exact .inl rfl
  · dsimp only
    rw [outcome_bind, outcome_inventory]
    dsimp only
    rw [outcome_bind, outcome_disk]
    dsimp only
    generalize successor old req _ = made
    rw [outcome_bind]
    refine .inr ⟨made, ?_⟩
    rcases outcome (generate vault made now) w with ⟨e | k, w'⟩
    · rfl
    · exact disk_link _ _ w'

theorem writesTo_publicLineOf (req : ImportedKey) : Moves (WritesTo vault names) (publicLineOf req) := by
  unfold publicLineOf
  dsimp only
  split
  · exact writesTo_pure _
  refine writesTo_bind (fun _ => .refl) fun d => ?_
  split
  · refine writesTo_bind (writesTo_onDisk fun d => ?_) fun _ => writesTo_pure _
    rw [Disk.outcome_ask]
    exact .refl
  · refine writesTo_bind ?_ fun _ => writesTo_pure _
    refine writesTo_bind ?_ fun output => writesTo_ofExcept fun _ _ => writesTo_pure _
    refine writesTo_call _ _ _ fun path files makes => ?_
    cases (madeKey?_publicHalfCall req.privateFile).symm.trans makes

theorem writesTo_keepPublicFile_none (isName : Name.isName name = true) (pub : PublicKey) :
    Moves (WritesTo vault [name ++ ".pub"]) (keepPublicFile vault name pub none) := by
  have isName' : ∀ n ∈ [name ++ ".pub"], Disk.IsName n :=
    fun n member => isName_pair isName n (List.mem_cons_of_mem _ member)
  refine writesTo_bind (writesTo_onDisk ?_) fun _ => writesTo_pure _
  refine Moves.bind (R := WritesFrom vault [name ++ ".pub"]) WritesFrom.trans ?_ fun _ => ?_
  · exact fun d sound tidy => .of_grows tidy (keeps_ensureDirectory _ d sound)
  · exact writes_writeWhole isName' (by simp)

/-- The names of the files that a key taken in may leave. -/
def copyNames (d : Disk) (req : ImportedKey) : List String :=
  if keepsCopy d req then [req.name ++ ".pub"] else []

theorem importKey_refused {req : ImportedKey} {now : Instant} {e : Error}
    (refused : checkImport w.inventory w.disk req = .error e) :
    outcome (importKey vault req now) w = (.error e, w) := by
  rw [importKey, outcome_bind, outcome_get]
  dsimp only
  rw [outcome_bind, Op.outcome_ofExcept, refused]

theorem importKey_writes (vault : Path) (req : ImportedKey) (now : Instant) (w : World) :
    WritesTo vault (copyNames w.disk req) w (outcome (importKey vault req now) w).2 := by
  rw [importKey, outcome_bind, outcome_get]
  dsimp only
  rw [outcome_bind, Op.outcome_ofExcept]
  rcases checked : checkImport w.inventory w.disk req with e | u
  · exact .refl
  dsimp only
  refine related_bind (R := WritesTo vault _) WritesTo.trans (writesTo_publicLineOf req w) ?_
  rintro ⟨line, found⟩ t run
  refine writesTo_ofExcept (fun pub _ => ?_) t
  refine writesTo_bind (writesTo_ask _) fun _ => writesTo_bind ?_ fun publicFile => ?_
  · rw [(supplies_iff.mpr run).found_eq, copyNames]
    split
    · exact writesTo_keepPublicFile_none (isName_of_checkImport checked) pub
    · exact writesTo_pure _
  · refine writesTo_bind (fun _ => .refl) fun d => writesTo_ofExcept fun createdAt _ => ?_
    refine writesTo_ofExcept fun expiresAt _ => ?_
    exact writesTo_bind (writesTo_edit _) fun _ => writesTo_pure _

end Lifecycle

end Keyring

import Keyring.Lifecycle.Import
import Keyring.Proofs.Lifecycle.Directory
import Keyring.Proofs.Operation.Effect
import Keyring.Proofs.PublicKey

/-!
# The public half of a key that is taken in

It comes from the request, from the file beside the private key, or from the tool (`Supplies`). Where it
was read from a file that file is its place; else a copy is written into the vault (`Shelves`). A link at
the place of the copy is replaced by it, and where the path of the copy went on through that link it leads
nowhere from then on (`Severed`).
-/

namespace Keyring

namespace Disk

variable {vault : Path} {d d' : Disk} {name : String} {p : Path} {content : Content} {at_ : Place} {s : String}
  {mode : Nat} {modified : Time.Instant}

/-- What a path leads to is read through the path without links as well, unless that is too long. -/
theorem readText_canonical_iff (sound : d.WellFormed)
    (found : d.find true p = .ok (at_, .file (.text s) mode modified)) :
    d.readText (d.canonicalOrSame p) = .ok s ↔ Text.utf8Length (d.canonicalOrSame p) ≤ longestPath := by
  obtain ⟨led, entry⟩ := find_eq_ok_iff.mp found
  have canonical : d.canonical p = .ok (pathOf at_) := canonical_eq_ok_iff.mpr ⟨at_, _, found, rfl⟩
  have same : d.canonicalOrSame p = pathOf at_ := by
    rw [canonicalOrSame, canonical]
    rfl
  rw [same]
  constructor
  · intro read
    obtain ⟨goal, _, _, again⟩ := find_of_readText read
    exact short_of_faultless (place_eq_ok_iff.mp (find_eq_ok_iff.mp again).1).1
  · intro short
    have notRoot : at_ ≠ [] := by
      rintro rfl
      cases entry
    have faultless := faultless_pathOf sound (sound.fits at_ _ entry notRoot) short
    exact readText_of_find (find_eq_ok_iff.mpr ⟨place_canonical sound led faultless, entry⟩)

/-- What a path leads to is read as a public key, and so it is through the path without links, unless that
is too long. -/
def LeadsToKey (d : Disk) (p : Path) (pub : PublicKey) : Prop :=
  ∃ text, PublicKey.ofText text = .ok pub ∧ d.readText p = .ok text ∧
    (d.readText (d.canonicalOrSame p) = .ok text ↔ Text.utf8Length (d.canonicalOrSame p) ≤ longestPath)

theorem leadsToKey_of_find {pub : PublicKey} (sound : d.WellFormed)
    (found : d.find true p = .ok (at_, .file (.text s) mode modified)) (read : PublicKey.ofText s = .ok pub) :
    d.LeadsToKey p pub :=
  ⟨s, read, readText_of_find found, readText_canonical_iff sound found⟩

/-- A path that went on through a link in whose place a file has come: it leads nowhere, so that it is
itself taken for the path without links, and nothing is read by it. -/
structure Severed (p : Path) (d d' : Disk) : Prop where
  same : d'.canonicalOrSame p = p
  unread : ∃ e, d'.readText p = .error e
  replaced : ∃ at_ target e, d.entryAt at_ = some (.link target) ∧ d'.entryAt at_ = some e ∧ e.isFile = true

theorem severed_of_find {target : String} {entry : Entry} {e : FileError} (lost : d'.find true p = .error e)
    (link : d.entryAt at_ = some (.link target)) (file : d'.entryAt at_ = some entry)
    (isFile : entry.isFile = true) : Severed p d d' where
  same := by
    rw [canonicalOrSame, canonical_eq_error_iff.mpr lost]
    rfl
  unread := ⟨e, by rw [readText, lost]; rfl⟩
  replaced := ⟨at_, target, entry, link, file, isFile⟩

/-- A copy kept in the vault: directories are made on the way to the keys, and then the file is put in
place, or one of these fails. -/
def copyInto (vault : Path) (name : String) (text : String) : DiskM Unit := do
  ensureDirectory (Layout.keysDir vault)
  writeWhole ((Layout.keysDir vault).join name) (.text text)

theorem outcome_copyInto (vault : Path) (sound : d.WellFormed) (isName : IsName name) (text : String) :
    ∃ paved, Paves (Layout.keysDir vault) d paved ∧
      ((∃ d', outcome (copyInto vault name text) d = (.ok (), d') ∧
          Replaces ((Layout.keysDir vault).join name) (.text text) paved d') ∨
        ∃ e, outcome (copyInto vault name text) d = (.error e, paved)) := by
  have paves : Paves (Layout.keysDir vault) d (outcome (ensureDirectory (Layout.keysDir vault)) d).2 :=
    paving_ensureDirectory _ d sound
  rw [copyInto, outcome_bind]
  rcases made : outcome (ensureDirectory (Layout.keysDir vault)) d with ⟨e | u, paved⟩
  · rw [made] at paves
    exact ⟨paved, paves, .inr ⟨e, rfl⟩⟩
  · rw [made] at paves
    refine ⟨paved, paves, ?_⟩
    have there : parentOf ((Layout.keysDir vault).join name) = "" ∨
        paved.isDirectory (parentOf ((Layout.keysDir vault).join name)) = true := by
      rw [Layout.parentOf_keyFile isName]
      exact .inr (isDirectory_of_ensureKeysDir sound made)
    dsimp only
    rw [outcome_writeWhole_of_parent there]
    exact (outcome_replaceFile _ _ paved).imp_right fun ⟨e, failed, _⟩ => ⟨e, failed⟩

end Disk

namespace Lifecycle

open Op Disk

variable {vault : Path} {req : ImportedKey} {w w' t : World} {line : String} {found : Option Path}
  {pub : PublicKey} {path : Path} {d d' : Disk} {name : String}

/-! ## Where the public half comes from -/

/-- What the tool is asked for the public half of a private key. -/
def publicHalfCall (privateFile : Path) : Call := ⟨Call.keyMaker, ["-y", "-f", privateFile], none⟩

/-- The path is taken by the option before it, whatever it is, so no key is made. -/
theorem madeKey?_publicHalfCall (privateFile : Path) : (publicHalfCall privateFile).madeKey? = none := by
  simp [publicHalfCall, Call.madeKey?, Call.options, Call.optionsAfter, Call.valuedOptions]

/-- A public line, the file that it was read from if any, and the world after that: it is given, or it
stands in the file beside the private key, or else the tool says it. -/
inductive Supplies (req : ImportedKey) (w : World) : String → Option Path → World → Prop
  | given {line : String} (is : req.publicLine = some line) : Supplies req w line none w
  | beside {text : String} (ungiven : req.publicLine = none)
      (isFile : w.disk.isFile (req.privateFile ++ ".pub") = true)
      (read : w.disk.readText (req.privateFile ++ ".pub") = .ok text) :
      Supplies req w text (some (req.privateFile ++ ".pub")) w
  | derived {output : Output} {t : World} (ungiven : req.publicLine = none)
      (alone : w.disk.isFile (req.privateFile ++ ".pub") = false)
      (called : outcome (Op.call Call.keyMaker ["-y", "-f", req.privateFile] none) w = (.ok output, t))
      (good : output.success = true) : Supplies req w output.stdout none t

theorem supplies_iff : Supplies req w line found t ↔ outcome (publicLineOf req) w = (.ok (line, found), t) := by
  constructor
  · intro supplies
    unfold publicLineOf
    cases supplies with
    | given is =>
      rw [is]
      rfl
    | beside ungiven isFile read =>
      rw [ungiven]
      simp only [outcome_bind, outcome_disk, isFile, ↓reduceIte, outcome_onDisk, Disk.outcome_ask, read,
        outcome_pure]
    | derived ungiven alone called good =>
      rw [ungiven]
      simp only [derivePublicLine, outcome_bind, outcome_disk, alone, Bool.false_eq_true, ↓reduceIte, called,
        demand, good, Op.outcome_ofExcept, outcome_pure]
  · intro run
    unfold publicLineOf at run
    dsimp only at run
    rcases given : req.publicLine with _ | text
    · rw [given] at run
      dsimp only at run
      rw [outcome_bind, outcome_disk] at run
      dsimp only at run
      split at run
      · rename_i isFile
        obtain ⟨text, t', read, last⟩ := of_outcome_bind_ok run
        rw [outcome_onDisk, Disk.outcome_ask] at read
        split at read
        · rename_i d readIt
          cases read
          cases last
          obtain ⟨read, rfl⟩ := Prod.mk.inj readIt
          exact .beside given isFile read
        · cases read
      · rename_i notFile
        obtain ⟨_, t', derived, last⟩ := of_outcome_bind_ok run
        cases last
        obtain ⟨output, t₁, called, derived⟩ := of_outcome_bind_ok derived
        obtain ⟨o, t₂, demanded, last⟩ := of_outcome_bind_ok derived
        rw [Op.outcome_ofExcept, demand] at demanded
        split at demanded
        · rename_i good
          cases demanded
          cases last
          exact .derived given (by simpa using notFile) called good
        · cases demanded
    · rw [given] at run
      cases run
      exact .given given

/-- No file of the public half is there, so that the vault keeps a copy. -/
def keepsCopy (d : Disk) (req : ImportedKey) : Bool :=
  req.publicLine.isSome || !d.isFile (req.privateFile ++ ".pub")

/-- There is a file that the line was read from where no copy is kept. -/
theorem Supplies.found_eq (supplies : Supplies req w line found t) :
    found = if keepsCopy w.disk req then none else some (req.privateFile ++ ".pub") := by
  cases supplies with
  | given is => simp [keepsCopy, is]
  | beside ungiven isFile => simp [keepsCopy, ungiven, isFile]
  | derived ungiven alone => simp [keepsCopy, ungiven, alone]

/-- A call that makes no key leaves the disk alone. -/
theorem disk_call {program : String} {args : List String} {stdin : Option String}
    (makesNone : (Call.mk program args stdin).madeKey? = none) (w : World) :
    (outcome (Op.call program args stdin) w).2.disk = w.disk := by
  rw [outcome_call]
  split
  · rfl
  split
  · rfl
  split
  · rfl
  · rfl
  · rw [makesNone]
    rfl

/-- Asking for a public half changes neither the records -/
theorem Supplies.inventory_eq (supplies : Supplies req w line found t) : t.inventory = w.inventory := by
  cases supplies with
  | given => rfl
  | beside => rfl
  | derived ungiven alone called good =>
    have kept := keepsInventory_call Call.keyMaker ["-y", "-f", req.privateFile] none w
    rwa [called] at kept

theorem Supplies.disk_eq (supplies : Supplies req w line found t) : t.disk = w.disk := by
  cases supplies with
  | given => rfl
  | beside => rfl
  | derived ungiven alone called good =>
    have kept := disk_call (madeKey?_publicHalfCall req.privateFile) w
    rwa [called] at kept

/-- The path of a public half and the disk when it is kept: the file that it was read from and nothing
else, or its copy in the vault. -/
inductive Shelves (vault : Path) (name : String) (pub : PublicKey) (d : Disk) : Option Path → Path → Disk → Prop
  | there {p : Path} : Shelves vault name pub d (some p) p d
  | copied {paved d' : Disk} (paves : Paves (Layout.keysDir vault) d paved)
      (replaces : Replaces (Layout.publicFile vault name) (.text (pub.line ++ "\n")) paved d') :
      Shelves vault name pub d none (Layout.publicFile vault name) d'

theorem keepPublicFile_none (vault : Path) (name : String) (pub : PublicKey) :
    keepPublicFile vault name pub none = (do
      Op.onDisk (copyInto vault (name ++ ".pub") (pub.line ++ "\n"))
      return Layout.publicFile vault name) := rfl

theorem shelves_of_keepPublicFile (sound : t.disk.WellFormed) (isName : Name.isName name = true)
    (run : outcome (keepPublicFile vault name pub found) t = (.ok path, w')) :
    Shelves vault name pub t.disk found path w'.disk := by
  cases found with
  | some p =>
    cases run
    exact .there
  | none =>
    rw [keepPublicFile_none, outcome_bind, outcome_onDisk] at run
    obtain ⟨paved, paves, ⟨d', done, replaces⟩ | ⟨e, failed⟩⟩ :=
      outcome_copyInto vault sound (Name.isName_public isName) (pub.line ++ "\n")
    · rw [done] at run
      cases run
      exact .copied paves replaces
    · rw [failed] at run
      cases run

namespace Shelves

theorem wellFormed (shelves : Shelves vault name pub d found path d') (sound : d.WellFormed) : d'.WellFormed := by
  cases shelves with
  | there => exact sound
  | copied paves replaces => exact replaces.sound paves.grows.sound

/-- What is kept is read as the key by its path, unless the copy has severed that. -/
theorem leadsToKey (shelves : Shelves vault name pub d found path d') (sound : d.WellFormed)
    (isSound : pub.Sound) (source : ∀ p, found = some p → ∃ text, d.readText p = .ok text ∧
      PublicKey.ofText text = .ok pub) : d'.LeadsToKey path pub ∨ found = none ∧ Severed path d d' := by
  have sound' := shelves.wellFormed sound
  cases shelves with
  | there =>
    obtain ⟨text, readable, read⟩ := source _ rfl
    obtain ⟨at_, mode, modified, there⟩ := find_of_readText readable
    exact .inl (leadsToKey_of_find sound there read)
  | copied paves replaces =>
    rcases replaces.find_or_severed paves.grows.sound with ⟨at_, there⟩ | ⟨e, at_, target, lost, link, copy⟩
    · exact .inl (leadsToKey_of_find sound' there isSound.ofText_line_feed)
    · have before := (paves.grows.links at_ target).mp link
      exact .inr ⟨rfl, severed_of_find lost before copy (isFile_newFile _ _ _)⟩

/-- Nothing but the copy is written, and directories on the way to it. -/
theorem entry (shelves : Shelves vault name pub d found path d') (at_ : Place) :
    d'.entryAt at_ = d.entryAt at_ ∨
      (d.entryAt at_ = none ∧ d'.entryAt at_ = some (.directory directoryMode)) ∨
      (found = none ∧ ∃ paved modified, Paves (Layout.keysDir vault) d paved ∧
        paved.place false (Layout.publicFile vault name) = .ok at_ ∧
        d'.entryAt at_ = some (.file (.text (pub.line ++ "\n")) privateFileMode modified)) := by
  cases shelves with
  | there => exact .inl rfl
  | @copied paved d' paves replaces =>
    obtain ⟨goal, led, notDir, put⟩ := replaces.replaced
    have notRoot := ne_nil_of_notDirectory notDir
    by_cases here : at_ = goal
    · subst here
      refine .inr (.inr ⟨rfl, paved, paved.clock, paves, led, ?_⟩)
      rw [put, entryAt_put_self notRoot]
      rfl
    · rw [put, entryAt_put_of_ne notRoot here]
      exact (paves.entry at_).imp_right fun ⟨free, new, _⟩ => .inl ⟨free, new⟩

end Shelves

end Lifecycle

end Keyring

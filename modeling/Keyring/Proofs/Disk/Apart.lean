import Keyring.Proofs.Disk.Files

/-!
# Files that work leaves alone

Work on some paths leaves a file at another path alone, if the paths lead to different
places (`Apart`). On a disk with links this is a matter of every disk on the way: a link
at the end of a path that is written as a whole, or deleted, goes itself, and then other
paths lead elsewhere (`Becomes`). What is spared is what the file holds (`Spared`); its
permissions are not.
-/

namespace Keyring.Disk

variable {α β : Type} {d d' d'' : Disk} {loose : Path → Prop} {through : Bool} {f kept p : Path}
  {at_ : Place} {content : Content}

/-- What a file holds, where one is. -/
def contentAt (d : Disk) (at_ : Place) : Option Content :=
  match d.entryAt at_ with
  | some (.file content ..) => some content
  | _ => none

theorem contentAt_eq_some_iff :
    d.contentAt at_ = some content ↔ ∃ mode modified, d.entryAt at_ = some (.file content mode modified) := by
  rw [contentAt]
  rcases d.entryAt at_ with _ | e
  · simp
  · cases e <;> simp

/-- A place that was not touched holds what it held. -/
theorem Later.contentAt {touched : Place → Prop} (later : Later touched d d') (free : ¬touched at_) :
    d'.contentAt at_ = d.contentAt at_ := by
  refine Option.ext fun content => ?_
  rw [contentAt_eq_some_iff, contentAt_eq_some_iff]
  exact exists_congr fun mode => exists_congr fun modified => later.files at_ free _ rfl

theorem contentAt_erase_of_ne (notRoot : at_ ≠ []) {there : Place} (other : there ≠ at_) :
    (d.erase at_).contentAt there = d.contentAt there := by
  rw [Disk.contentAt, entryAt_erase notRoot, if_neg other, Disk.contentAt]

/-- Permissions are no matter of what a file holds. -/
theorem contentAt_setMode (sound : d.WellFormed) (p : Path) (mode : Nat) :
    (outcome (setMode p mode) d).2.contentAt at_ = d.contentAt at_ := by
  rw [outcome_setMode sound]
  split
  · rfl
  · rename_i here e found
    dsimp only
    split
    · rfl
    · rename_i notRoot
      by_cases same : at_ = here
      · subst same
        rw [Disk.contentAt, entryAt_put_self notRoot, Disk.contentAt, (find_eq_ok_iff.mp found).2]
        cases e <;> rfl
      · rw [Disk.contentAt, entryAt_put_of_ne notRoot same, Disk.contentAt]

/-- What may become of a disk: it goes through later states, and links go that are at the end of a loose
path. -/
inductive Becomes (loose : Path → Prop) (d : Disk) : Disk → Prop
  | same : Becomes loose d d
  | later {d' d'' : Disk} : Becomes loose d d' → Evolves d' d'' → Becomes loose d d''
  | unlink {d' : Disk} {f : Path} {at_ : Place} {target : String} : Becomes loose d d' → loose f →
      d'.place false f = .ok at_ → d'.entryAt at_ = some (.link target) → Becomes loose d (d'.erase at_)

theorem isDirectoryAt_of_link {target : String} (link : d.entryAt at_ = some (.link target)) :
    d.isDirectoryAt at_ = false := by
  rw [Bool.eq_false_iff]
  intro isDir
  cases isDirectory_of_isDirectoryAt isDir link

theorem Becomes.sound (becomes : Becomes loose d d') (sound : d.WellFormed) : d'.WellFormed := by
  induction becomes with
  | same => exact sound
  | later _ evolves _ => exact evolves.sound
  | unlink _ _ _ link ih => exact (ih.erase (isDirectoryAt_of_link link)).1

/-- Whatever becomes of the disk, one path leads to other places than another, which is followed through
links. -/
def Apart (loose : Path → Prop) (d : Disk) (through : Bool) (f kept : Path) : Prop :=
  ∀ d₁ d₂ at_, Becomes loose d d₁ → Becomes loose d d₂ → d₁.place through f = .ok at_ →
    d₂.place true kept ≠ .ok at_

/-- Where a name leads from a place that is taken at its word. -/
def atName (at_ : Place) (name : String) : Place :=
  if name = "" ∨ name = "." then at_ else if name = ".." then at_.dropLast else at_ ++ [name]

def textPlace (here : Place) (p : Path) : Place := (Path.names p).foldl atName (startOf here p)

theorem textPlace_join {name : String} (isName : IsName name) (here : Place) (p : Path) :
    textPlace here (p.join name) = textPlace here p ++ [name] := by
  have start : startOf here (p.join name) = startOf here p := by
    rw [startOf, startOf, Path.isAbsolute_join p isName.plain]
  have down (at_ : Place) : atName at_ name = at_ ++ [name] := by
    rw [atName, if_neg (by simp [isName.some, isName.notHere]), if_neg isName.notUp]
  rw [textPlace, textPlace, start]
  obtain named | ⟨front, whole, named⟩ := Path.names_join p isName.plain
  · rw [named, List.foldl_append]
    exact down _
  · rw [whole, named, List.foldl_append, List.foldl_append]
    exact down _

theorem Becomes.of_noLinks (becomes : Becomes loose d d') (none : ∀ at_ t, d.entryAt at_ ≠ some (.link t)) :
    d'.workingPlace = d.workingPlace ∧ ∀ at_ t, d'.entryAt at_ ≠ some (.link t) := by
  induction becomes with
  | same => exact ⟨rfl, none⟩
  | later _ evolves ih =>
    exact ⟨evolves.workingPlace.trans ih.1, fun at_ t => mt (evolves.links at_ t).mp (ih.2 at_ t)⟩
  | unlink _ _ _ link ih => exact absurd link (ih.2 _ _)

theorem Leads.of_noLinks {links left : Nat} {here goal : Place} {xs : List String}
    (leads : Leads d through links here xs left goal) (none : ∀ at_ t, d.entryAt at_ ≠ some (.link t)) :
    goal = xs.foldl atName here := by
  induction leads with
  | done => rfl
  | void _ void _ ih => rw [ih, List.foldl_cons, atName, if_pos void]
  | up _ _ ih => rw [ih, List.foldl_cons, atName, if_neg (by decide), if_pos rfl]
  | down _ isStep _ _ ih => rw [ih, List.foldl_cons, atName, if_neg isStep.notVoid, if_neg isStep.notUp]
  | halt _ _ link => exact absurd link (none _ _)
  | follow _ _ link => exact absurd link (none _ _)

/-- Without links, paths are apart that name different places. -/
theorem apart_of_noLinks (none : ∀ at_ t, d.entryAt at_ ≠ some (.link t))
    (other : textPlace d.workingPlace f ≠ textPlace d.workingPlace kept) : Apart loose d through f kept := by
  intro d₁ d₂ at_ becomes becomes' led led'
  obtain ⟨here, none₁⟩ := becomes.of_noLinks none
  obtain ⟨here', none₂⟩ := becomes'.of_noLinks none
  obtain ⟨-, _, leads⟩ := place_eq_ok_iff.mp led
  obtain ⟨-, _, leads'⟩ := place_eq_ok_iff.mp led'
  rw [here] at leads
  rw [here'] at leads'
  exact other ((leads.of_noLinks none₁).symm.trans (leads'.of_noLinks none₂))

/-- What has become of a disk, where each file that a path leads to, now or later, holds what it held. -/
structure Spared (loose : Path → Prop) (kept : Path) (d d' : Disk) : Prop where
  becomes : Becomes loose d d'
  content : ∀ d₂ at_, Becomes loose d d₂ → d₂.place true kept = .ok at_ → d'.contentAt at_ = d.contentAt at_

namespace Spared

theorem same : Spared loose kept d d := ⟨.same, fun _ _ _ _ => rfl⟩

/-- The places that are touched are none of those that are spared. -/
theorem later {touched : Place → Prop} (spared : Spared loose kept d d') (later : Later touched d' d'')
    (apart : ∀ d₂ at_, touched at_ → Becomes loose d d₂ → d₂.place true kept ≠ .ok at_) :
    Spared loose kept d d'' where
  becomes := .later spared.becomes later.evolves
  content := fun d₂ at_ becomes led =>
    (later.contentAt fun here => apart d₂ at_ here becomes led).trans (spared.content d₂ at_ becomes led)

theorem grows (spared : Spared loose kept d d') (grows : Grows d' d'') : Spared loose kept d d'' :=
  spared.later grows fun _ _ => False.elim

theorem setMode (spared : Spared loose kept d d') (sound : d.WellFormed) (p : Path) (mode : Nat) :
    Spared loose kept d (outcome (Disk.setMode p mode) d').2 where
  becomes := .later spared.becomes (keeps_setMode (spared.becomes.sound sound)).evolves
  content := fun d₂ at_ becomes led =>
    (contentAt_setMode (spared.becomes.sound sound) p mode).trans (spared.content d₂ at_ becomes led)

/-- A link at the end of a loose path is taken away. -/
theorem unlink {target : String} (spared : Spared loose kept d d') (isLoose : loose f)
    (apart : Apart loose d false f kept) (led : d'.place false f = .ok at_)
    (link : d'.entryAt at_ = some (.link target)) : Spared loose kept d (d'.erase at_) where
  becomes := .unlink spared.becomes isLoose led link
  content := by
    intro d₂ there becomes ledThere
    have other : there ≠ at_ := by
      rintro rfl
      exact apart d' d₂ there spared.becomes becomes led ledThere
    have notRoot := ne_nil_of_notDirectory (isDirectoryAt_of_link link)
    rw [contentAt_erase_of_ne notRoot other, spared.content d₂ there becomes ledThere]

end Spared

/-- Work on a disk that has become of `d` spares the file. -/
def Spares (loose : Path → Prop) (kept : Path) (d : Disk) (work : DiskM α) : Prop :=
  Moves (fun d' d'' => Spared loose kept d d' → Spared loose kept d d'') work

namespace Spares

theorem pure (a : α) : Spares loose kept d (Pure.pure a : DiskM α) := fun _ spared => spared

theorem throw (e : FileError) : Spares loose kept d (throwThe FileError e : DiskM α) := fun _ spared => spared

theorem get : Spares loose kept d (MonadState.get : DiskM Disk) := fun _ spared => spared

theorem ask (question : Disk → Except FileError α) : Spares loose kept d (Disk.ask question) := by
  intro d' spared
  rwa [Disk.outcome_ask]

theorem bind {x : DiskM α} {f : α → DiskM β} (first : Spares loose kept d x)
    (next : ∀ a, Spares loose kept d (f a)) : Spares loose kept d (x >>= f) :=
  Moves.bind (R := fun d' d'' => Spared loose kept d d' → Spared loose kept d d'')
    (fun first second spared => second (first spared)) first next

theorem forM {work : α → DiskM Unit} {items : List α} (each : ∀ a ∈ items, Spares loose kept d (work a)) :
    Spares loose kept d (items.forM work) := by
  induction items with
  | nil => exact .pure ()
  | cons a rest ih =>
    exact bind (each a List.mem_cons_self) fun _ => ih fun b member => each b (List.mem_cons_of_mem _ member)

end Spares

variable (sound : d.WellFormed)

include sound

theorem spares_ensureDirectory (p : Path) : Spares loose kept d (ensureDirectory p) :=
  fun d' spared => spared.grows (keeps_ensureDirectory p d' (spared.becomes.sound sound))

theorem spares_setMode (p : Path) (mode : Nat) : Spares loose kept d (setMode p mode) :=
  fun _ spared => spared.setMode sound p mode

theorem spares_writeThrough (apart : Apart loose d true p kept) (content : Content) :
    Spares loose kept d (writeThrough p content) := by
  intro d' spared
  refine spared.later (keeps_writeThrough (spared.becomes.sound sound)) fun d₂ at_ led becomes => ?_
  exact apart d' d₂ at_ spared.becomes becomes led

/-- A link is replaced as if it were taken away first. -/
theorem spares_replaceFile (isLoose : loose p) (apart : Apart loose d false p kept) (content : Content) :
    Spares loose kept d (replaceFile p content) := by
  intro d' spared
  have sound' := spared.becomes.sound sound
  obtain ⟨d'', run, replaces⟩ | ⟨e, run, -⟩ := outcome_replaceFile p content d'
  · rw [run]
    obtain ⟨at_, led, notDir, whole⟩ := replaces.replaced
    have elsewhere (d₂ : Disk) (there : Place) (here : there = at_) (becomes : Becomes loose d d₂) :
        d₂.place true kept ≠ .ok there := by
      subst here
      exact apart d' d₂ there spared.becomes becomes led
    by_cases link : ∃ t, d'.entryAt at_ = some (.link t)
    · obtain ⟨t, link⟩ := link
      have gone := spared.unlink isLoose apart led link
      obtain ⟨fits, named⟩ : d'.Fits at_ ∧ at_ ≠ [] :=
        ⟨sound'.fits at_ _ link (ne_nil_of_notDirectory notDir), ne_nil_of_notDirectory notDir⟩
      have empty : (d'.erase at_).entryAt at_ = none := by rw [entryAt_erase named, if_pos rfl]
      have fits' : (d'.erase at_).Fits at_ := by
        obtain ⟨parent, name, rfl, isDir, isName⟩ := fits.named
        exact ⟨parent, name, rfl, (sound'.erase notDir).2 parent isDir, isName⟩
      have again : d'' = (d'.erase at_).put at_ (d'.newFile content privateFileMode) := by
        rw [whole]
        simp [Disk.put, Disk.erase, List.filter_filter]
      rw [again]
      refine gone.later (Later.putFile (sound'.erase notDir).1 fits' rfl fun e entry => ?_) elsewhere
      rw [empty] at entry
      cases entry
    · exact spared.later (replaces.later sound' led (not_exists.mp link)) elsewhere
  · rwa [run]

theorem spares_writeWhole (isLoose : loose p) (apart : Apart loose d false p kept) (content : Content) :
    Spares loose kept d (writeWhole p content) := by
  unfold writeWhole
  dsimp only
  split
  · refine Spares.bind (spares_ensureDirectory sound _) fun _ => Spares.bind .get fun d' => ?_
    split
    · exact .throw _
    · exact spares_replaceFile sound isLoose apart content
  · exact spares_replaceFile sound isLoose apart content

theorem spares_removeFile (isLoose : loose p) (apart : Apart loose d false p kept) :
    Spares loose kept d (removeFile p) := by
  intro d' spared
  have sound' := spared.becomes.sound sound
  rw [removeFile, outcome_bind, Disk.outcome_ask]
  rcases found : d'.find false p with e | ⟨at_, e⟩
  · exact spared
  obtain ⟨led, entry⟩ := find_eq_ok_iff.mp found
  cases e with
  | directory mode => exact spared
  | link t => exact spared.unlink isLoose apart led entry
  | file content mode modified =>
    refine spared.later (Later.erase sound' entry rfl) fun d₂ there here becomes => ?_
    subst here
    exact apart d' d₂ there spared.becomes becomes led

end Keyring.Disk

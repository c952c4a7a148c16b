/-!
# Running work that can fail

What work on a state answers and the state that it leaves. Work that looks first and
changes the state last changes it only if it succeeds.
-/

namespace Keyring

variable {ε σ α β : Type}

/-- What work answers and the state that it leaves. -/
def outcome (x : ExceptT ε (StateM σ) α) (s : σ) : Except ε α × σ := x.run.run s

theorem outcome_bind (x : ExceptT ε (StateM σ) α) (f : α → ExceptT ε (StateM σ) β) (s : σ) :
    outcome (x >>= f) s = match outcome x s with
      | (.ok a, t) => outcome (f a) t
      | (.error e, t) => (.error e, t) := by
  simp only [outcome, bind, ExceptT.bind, ExceptT.mk, ExceptT.run, StateT.bind, StateT.run]
  rcases x s with ⟨e | a, t⟩
  · rfl
  · rfl

theorem outcome_tryCatch (x : ExceptT ε (StateM σ) α) (handle : ε → ExceptT ε (StateM σ) α)
    (s : σ) : outcome (tryCatch x handle) s = match outcome x s with
      | (.ok a, t) => (.ok a, t)
      | (.error e, t) => outcome (handle e) t := by
  simp only [outcome, tryCatch, tryCatchThe, MonadExceptOf.tryCatch, ExceptT.tryCatch, bind,
    ExceptT.mk, ExceptT.run, StateT.bind, StateT.run]
  rcases x s with ⟨e | a, t⟩
  · rfl
  · rfl

@[simp] theorem outcome_pure (a : α) (s : σ) :
    outcome (pure a : ExceptT ε (StateM σ) α) s = (.ok a, s) := rfl

@[simp] theorem outcome_throw (e : ε) (s : σ) :
    outcome (throw e : ExceptT ε (StateM σ) α) s = (.error e, s) := rfl

@[simp] theorem outcome_get (s : σ) : outcome (get : ExceptT ε (StateM σ) σ) s = (.ok s, s) := rfl

@[simp] theorem outcome_set (s t : σ) :
    outcome (set t : ExceptT ε (StateM σ) PUnit) s = (.ok ⟨⟩, t) := rfl

@[simp] theorem outcome_modify (f : σ → σ) (s : σ) :
    outcome (modify f : ExceptT ε (StateM σ) PUnit) s = (.ok ⟨⟩, f s) := rfl

@[simp] theorem outcome_modifyGet (f : σ → α × σ) (s : σ) :
    outcome (modifyGet f : ExceptT ε (StateM σ) α) s = (.ok (f s).1, (f s).2) := rfl

theorem outcome_discard_eq (x : ExceptT ε (StateM σ) α) (s : σ) :
    outcome (discard x) s = ((outcome x s).1.map fun _ => ⟨⟩, (outcome x s).2) := by
  have run : outcome (discard x) s = outcome (x >>= fun _ => pure ⟨⟩) s := rfl
  rw [run, outcome_bind]
  rcases outcome x s with ⟨_ | _, _⟩ <;> rfl

/-- Two pieces of work in a row succeed only one after the other. -/
theorem of_outcome_bind_ok {x : ExceptT ε (StateM σ) α} {f : α → ExceptT ε (StateM σ) β} {s u : σ}
    {b : β} (h : outcome (x >>= f) s = (.ok b, u)) :
    ∃ a t, outcome x s = (.ok a, t) ∧ outcome (f a) t = (.ok b, u) := by
  rw [outcome_bind] at h
  rcases hx : outcome x s with ⟨e | a, t⟩
  · simp [hx] at h
  · exact ⟨a, t, rfl, by simpa [hx] using h⟩

/-- The state moves along a relation, whatever the answer is. -/
def Moves (R : σ → σ → Prop) (x : ExceptT ε (StateM σ) α) : Prop := ∀ s, R s (outcome x s).2

/-- Work that leaves the state alone. -/
def Still (x : ExceptT ε (StateM σ) α) : Prop := ∀ s, (outcome x s).2 = s

/-- It moves the state along every relation in which each state is to itself. -/
theorem Still.moves {R : σ → σ → Prop} {x : ExceptT ε (StateM σ) α} (still : Still x)
    (refl : ∀ s, R s s) : Moves R x := by
  intro s
  rw [still s]
  exact refl s

/-- Work that changes the state only if it succeeds. -/
def Atomic (x : ExceptT ε (StateM σ) α) : Prop := ∀ s e, (outcome x s).1 = .error e → (outcome x s).2 = s

/-- Work that cannot fail. -/
def Total (x : ExceptT ε (StateM σ) α) : Prop := ∀ s, ∃ a t, outcome x s = (.ok a, t)

theorem Total.atomic {x : ExceptT ε (StateM σ) α} (total : Total x) : Atomic x := by
  intro s e failed
  obtain ⟨a, t, run⟩ := total s
  rw [run] at failed
  cases failed

theorem Total.bind {x : ExceptT ε (StateM σ) α} {f : α → ExceptT ε (StateM σ) β} (first : Total x)
    (next : ∀ a, Total (f a)) : Total (x >>= f) := by
  intro s
  obtain ⟨a, t, run⟩ := first s
  rw [outcome_bind, run]
  exact next a t

theorem Total.pure (a : α) : Total (Pure.pure a : ExceptT ε (StateM σ) α) := fun s => ⟨a, s, rfl⟩

theorem Total.modify (f : σ → σ) : Total (modify f : ExceptT ε (StateM σ) PUnit) := fun s => ⟨⟨⟩, f s, rfl⟩

theorem Still.atomic {x : ExceptT ε (StateM σ) α} (still : Still x) : Atomic x := fun s _ _ => still s

/-- What can be refused comes before what changes the state. -/
theorem Atomic.after {x : ExceptT ε (StateM σ) α} {f : α → ExceptT ε (StateM σ) β} (still : Still x)
    (next : ∀ a, Atomic (f a)) : Atomic (x >>= f) := by
  intro s e
  have same := still s
  rw [outcome_bind]
  rcases run : outcome x s with ⟨e' | a, t⟩
  · rw [run] at same
    exact fun _ => same
  · rw [run] at same
    obtain rfl : t = s := same
    exact next a t e

theorem Atomic.ite {c : Prop} [Decidable c] {x y : ExceptT ε (StateM σ) α} (first : Atomic x) (second : Atomic y) :
    Atomic (if c then x else y) := by
  split
  · exact first
  · exact second

theorem Atomic.discard {x : ExceptT ε (StateM σ) α} (atomic : Atomic x) : Atomic (Functor.discard x) := by
  intro s e failed
  rw [outcome_discard_eq] at failed ⊢
  rcases run : (outcome x s).1 with e' | a
  · exact atomic s e' run
  · rw [run] at failed
    cases failed

theorem still_get : Still (get : ExceptT ε (StateM σ) σ) := fun _ => rfl

theorem still_throw (e : ε) : Still (throw e : ExceptT ε (StateM σ) α) := fun _ => rfl

/-- A relation holds along two pieces of work in a row. What is known of the first is known when the
second runs. -/
theorem related_bind {R : σ → σ → Prop} (trans : ∀ {a b c}, R a b → R b c → R a c)
    {x : ExceptT ε (StateM σ) α} {f : α → ExceptT ε (StateM σ) β} {s : σ}
    (first : R s (outcome x s).2)
    (next : ∀ a t, outcome x s = (.ok a, t) → R t (outcome (f a) t).2) :
    R s (outcome (x >>= f) s).2 := by
  rw [outcome_bind]
  rcases h : outcome x s with ⟨e | a, t⟩
  · simpa [h] using first
  · exact trans (by simpa [h] using first) (next a t h)

theorem Moves.bind {R : σ → σ → Prop} (trans : ∀ {a b c}, R a b → R b c → R a c)
    {x : ExceptT ε (StateM σ) α} {f : α → ExceptT ε (StateM σ) β} (first : Moves R x)
    (next : ∀ a, Moves R (f a)) : Moves R (x >>= f) :=
  fun s => related_bind (R := R) trans (first s) fun a t _ => next a t

theorem Moves.tryCatch {R : σ → σ → Prop} (trans : ∀ {a b c}, R a b → R b c → R a c)
    {x : ExceptT ε (StateM σ) α} {handle : ε → ExceptT ε (StateM σ) α} (first : Moves R x)
    (next : ∀ e, Moves R (handle e)) : Moves R (tryCatch x handle) := by
  intro s
  have moved := first s
  rw [outcome_tryCatch]
  rcases h : outcome x s with ⟨e | a, t⟩
  · rw [h] at moved
    exact trans moved (next e t)
  · rwa [h] at moved

/-- The same work on each item of a list, one after the other. -/
theorem Moves.mapM {R : σ → σ → Prop} (refl : ∀ s, R s s) (trans : ∀ {a b c}, R a b → R b c → R a c)
    {f : α → ExceptT ε (StateM σ) β} (each : ∀ a, Moves R (f a)) (items : List α) :
    Moves R (items.mapM f) := by
  induction items with
  | nil => exact refl
  | cons a rest ih =>
    rw [List.mapM_cons]
    exact Moves.bind (R := R) trans (each a) fun b => Moves.bind (R := R) trans ih fun bs => refl

theorem Moves.throw {R : σ → σ → Prop} (refl : ∀ s, R s s) (e : ε) :
    Moves R (throwThe ε e : ExceptT ε (StateM σ) α) := refl

end Keyring

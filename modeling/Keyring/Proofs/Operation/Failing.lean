import Keyring.Lifecycle.Generate
import Keyring.Proofs.Operation.Outcome

/-!
# What fails, and with what

The errors that a refusal (`RefusedOnly`) and an operation (`Op.FailsOnly`) can end in, put together from
those of the parts. Files, tools and what tools leave have errors of their own (`Error.blamesOutside`), and
so has key material (`Error.blamesMaterial`).
-/

namespace Keyring

variable {α β : Type} {p q : Error → Prop}

/-- A file, a tool or a text that should hold a key is to blame. -/
def Error.blamesOutside : Error → Bool
  | .invalidPublicKey _ | .keyFileMissing _ | .toolNotInstalled _ | .toolFailed .. | .fileAccess _ => true
  | _ => false

/-- A file, a tool or what a key is made of is to blame. -/
def Error.blamesMaterial : Error → Bool
  | .weakAlgorithm _ | .invalidKeySize _ | .invalidPublicKey _ | .keyFileMissing _ | .toolNotInstalled _
  | .toolFailed .. | .fileAccess _ => true
  | _ => false

theorem Error.blamesMaterial_of_blamesOutside {e : Error} (outside : e.blamesOutside = true) :
    e.blamesMaterial = true := by
  cases e <;> first | rfl | cases outside

def RefusedOnly (p : Error → Prop) (r : Except Error α) : Prop := ∀ e, r = .error e → p e

namespace RefusedOnly

theorem ok (a : α) : RefusedOnly p (.ok a) := nofun

theorem error {e : Error} (one : p e) : RefusedOnly p (.error e : Except Error α) := by
  rintro _ ⟨⟩
  exact one

theorem mono {r : Except Error α} (only : RefusedOnly p r) (more : ∀ e, p e → q e) : RefusedOnly q r :=
  fun e refused => more e (only e refused)

theorem material {r : Except Error α} (only : RefusedOnly (·.blamesOutside) r) : RefusedOnly (·.blamesMaterial) r :=
  only.mono fun _ => Error.blamesMaterial_of_blamesOutside

theorem bind {r : Except Error α} {f : α → Except Error β} (first : RefusedOnly p r)
    (next : ∀ a, RefusedOnly p (f a)) : RefusedOnly p (r >>= f) := by
  cases r with
  | error e => exact .error (first e rfl)
  | ok a => exact next a

theorem thrown {e : Error} {f : α → Except Error β} (one : p e) : RefusedOnly p (throw e >>= f) := .error one

end RefusedOnly

namespace Op

/-- From every world, an operation fails with one of these errors at most. -/
def FailsOnly (p : Error → Prop) (op : Op α) : Prop := ∀ w, RefusedOnly p (outcome op w).1

namespace FailsOnly

theorem pure (a : α) : FailsOnly p (Pure.pure a : Op α) := fun _ => .ok a

theorem get : FailsOnly p (MonadState.get : Op World) := fun w => .ok w

theorem disk : FailsOnly p Op.disk := fun w => .ok w.disk

theorem ofExcept {r : Except Error α} (only : RefusedOnly p r) : FailsOnly p (Op.ofExcept r) := by
  intro w
  rw [outcome_ofExcept]
  exact only

theorem ask {question : Inventory → Except Error α} (only : ∀ inv, RefusedOnly p (question inv)) :
    FailsOnly p (Op.ask question) := by
  intro w
  rw [outcome_ask]
  exact only w.inventory

theorem mono {op : Op α} (only : FailsOnly p op) (more : ∀ e, p e → q e) : FailsOnly q op :=
  fun w => (only w).mono more

theorem material {op : Op α} (only : FailsOnly (·.blamesOutside) op) : FailsOnly (·.blamesMaterial) op :=
  fun w => (only w).material

theorem bind {x : Op α} {f : α → Op β} (first : FailsOnly p x) (next : ∀ a, FailsOnly p (f a)) :
    FailsOnly p (x >>= f) := by
  intro w
  have only := first w
  rw [outcome_bind]
  rcases run : outcome x w with ⟨e | a, w'⟩
  · rw [run] at only
    exact .error (only e rfl)
  · exact next a w'

theorem onDisk (work : DiskM α) : FailsOnly (·.blamesOutside) (Op.onDisk work) := by
  intro w
  rw [outcome_onDisk]
  rcases outcome work w.disk with ⟨reason | a, d⟩
  · exact .error rfl
  · exact .ok a

theorem call (program : String) (args : List String) (stdin : Option String) :
    FailsOnly (·.blamesOutside) (Op.call program args stdin) := by
  intro w
  rw [outcome_call]
  split
  · exact .error rfl
  split
  · exact .error rfl
  split
  · exact .error rfl
  · exact .error rfl
  split
  · exact bind (onDisk _) (fun _ => pure _) (w.called _)
  · exact .ok _

end FailsOnly

end Op

theorem Algorithm.refusedOnly_chosenBits (algorithm : Algorithm) (wanted : Option Nat) :
    RefusedOnly (·.blamesMaterial) (algorithm.chosenBits wanted) := by
  cases algorithm with
  | dsa => exact .error rfl
  | rsa =>
    dsimp only [chosenBits]
    split
    · exact .error rfl
    · exact .ok _
  | ecdsa =>
    dsimp only [chosenBits]
    split
    · split
      · exact .ok _
      · exact .error rfl
    · exact .ok _
  | ed25519 => exact .ok _

theorem PublicKey.refusedOnly_nextString (bytes : List UInt8) :
    RefusedOnly (·.blamesOutside) (nextString bytes) := by
  unfold nextString
  split
  · exact .ok _
  · exact .error rfl

theorem PublicKey.refusedOnly_ofText (text : String) : RefusedOnly (·.blamesOutside) (ofText text) := by
  unfold ofText
  dsimp only
  split
  · exact .thrown rfl
  split
  · exact .thrown rfl
  split
  · refine .bind (.ok _) fun algorithm => ?_
    split
    · refine .bind (.ok _) fun blob => .bind (refusedOnly_nextString blob) fun next => ?_
      split
      · exact .thrown rfl
      · exact .ok _
    · exact .thrown rfl
  · exact .thrown rfl

namespace Lifecycle

theorem refusedOnly_demand (tool : String) (o : Output) : RefusedOnly (·.blamesOutside) (demand tool o) := by
  unfold demand
  split
  · exact .ok _
  · exact .error rfl

theorem refusedOnly_readPublicFile (d : Disk) (path : Path) :
    RefusedOnly (·.blamesOutside) (readPublicFile d path) := by
  unfold readPublicFile
  split
  · exact PublicKey.refusedOnly_ofText _
  · exact .error rfl

end Lifecycle

end Keyring

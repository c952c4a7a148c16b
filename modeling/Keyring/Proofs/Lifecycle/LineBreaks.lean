import Keyring.Proofs.Lifecycle.Intake
import Keyring.Proofs.PublicLine
import Keyring.Proofs.Text.Lines

/-!
# Line breaks in public lines

The fields of a public key are told apart by blanks of any kind, and a comment goes on to the end of the
text. So all that follows the key data in a text of several lines is comment: its breaks come into the
line of the key, on record and into the copy of the public half (`Condenses`), and the line is one line
only where its comment is.
-/

namespace Keyring

open Codec Text

namespace PublicKey

variable {text : String} {pub : PublicKey} {keyType symbols comment : List Char} {c : Char}

/-- Of the blanks that are no spaces, the line of a key has those of its comment. -/
theorem Sound.count_line (sound : pub.Sound) (blank : isBlank c = true) (notSpace : c ≠ ' ') :
    pub.line.toList.count c = pub.comment.toList.count c := by
  have inType : pub.keyType.toList.count c = 0 := List.count_eq_zero.mpr fun inside => by
    rw [sound.solid c inside] at blank
    cases blank
  have inSymbols : (Base64.encode pub.blob).count c = 0 := List.count_eq_zero.mpr fun inside => by
    rw [Base64.isSolid_encode pub.blob c inside] at blank
    cases blank
  by_cases bare : pub.comment = ""
  · rw [line_of_bare bare, bare, List.count_append, List.count_cons_of_ne notSpace.symm, inType, inSymbols]
    rfl
  · rw [line_of_comment bare, List.count_append, List.count_cons_of_ne notSpace.symm, List.count_append,
      List.count_cons_of_ne notSpace.symm, inType, inSymbols, Nat.zero_add, Nat.zero_add]

/-- What a line keeps of the text that its key was read from: the fields, and of the blanks that are no
spaces those within the comment. -/
structure Condenses (text line : String) (comment : List Char) : Prop where
  fields : ∃ keyType symbols, HasFields (trim text.toList) keyType symbols comment ∧
    HasFields line.toList keyType symbols comment
  breaks : ∀ c, isBlank c = true → c ≠ ' ' → (c ∈ line.toList ↔ c ∈ comment)
  lines : (lines (line ++ "\n").toList).length = comment.count '\n' + 1

theorem condenses_of_ofText (read : ofText text = .ok pub) : Condenses text pub.line pub.comment.toList where
  fields := by
    have same : ofText (String.ofList (trim text.toList)) = ofText text := by
      refine ofText_of_trim ?_
      rw [String.toList_ofList, (isTrimmed_trim text.toList).trim_eq]
    have inner := hasFields_of_ofText (same.trans read)
    rw [String.toList_ofList] at inner
    exact ⟨_, _, inner, (sound_of_ofText read).hasFields_line⟩
  breaks := fun c blank notSpace => by
    rw [← List.count_pos_iff, ← List.count_pos_iff, (sound_of_ofText read).count_line blank notSpace]
  lines := by
    rw [String.toList_append]
    have feed := (sound_of_ofText read).count_line (show isBlank '\n' = true by decide) (by decide)
    exact (length_lines_feed pub.line.toList).trans (by rw [feed])

theorem HasFields.mem_of_mem_comment {cs : List Char} (fields : HasFields cs keyType symbols comment)
    (inside : c ∈ comment) : c ∈ cs := by
  obtain ⟨lead, sep, rest, rfl, -, -, -, rfl⟩ := fields.split
  obtain ⟨before, after, whole, -, -⟩ := exists_trim rest
  have inRest : c ∈ rest := by
    rw [whole]
    simp [inside]
  simp [inRest]

/-- The line of a text without breaks within is one line. -/
theorem Condenses.single {line : String} (condenses : Condenses text line comment)
    (single : '\n' ∉ trim text.toList) : (Text.lines (line ++ "\n").toList).length = 1 := by
  obtain ⟨keyType, symbols, fields, -⟩ := condenses.fields
  rw [condenses.lines, List.count_eq_zero.mpr fun inside => single (fields.mem_of_mem_comment inside)]

end PublicKey

namespace Lifecycle

open Op Disk PublicKey Time

variable {vault : Path} {now : Instant} {w w' : World} {k : Key}

/-- The line of a new key is that of the text which the tool left. -/
theorem condenses_of_generate {req : NewKey} (run : outcome (generate vault req now) w = (.ok k, w')) :
    ∃ text pub, w'.disk.readText k.publicFile = .ok text ∧ PublicKey.ofText text = .ok pub ∧
      k.publicLine = pub.line ∧ Condenses text k.publicLine pub.comment.toList := by
  obtain ⟨pub, t, due, made, -, rfl, rfl⟩ := of_generate_ok run
  have read := of_makePair_ok made
  unfold readPublicFile at read
  split at read
  · rename_i text readable
    exact ⟨text, pub, readable, read, rfl, condenses_of_ofText read⟩
  · cases read

/-- The line of a key that is taken in is that of the text that was supplied, and its copy holds that line. -/
theorem condenses_of_importKey {req : ImportedKey} (sound : w.disk.WellFormed)
    (run : outcome (importKey vault req now) w = (.ok k, w')) :
    ∃ text found t pub path, Supplies req w text found t ∧ PublicKey.ofText text = .ok pub ∧
      k.publicLine = pub.line ∧ Condenses text k.publicLine pub.comment.toList ∧
      Shelves vault req.name pub w.disk found path w'.disk := by
  have intake := intake_of_importKey sound run
  obtain ⟨text, found, t, pub, path, supplies, read, shows_, shelves, -⟩ := intake.half
  refine ⟨text, found, t, pub, path, supplies, read, shows_.line, ?_, shelves⟩
  rw [shows_.line]
  exact condenses_of_ofText read

/-- The line of a public key breaks where its comment does, and the comment is all that follows the key data
in the text that was read, so that a text of one line gives one line. That line comes on record and into the
copy of a public half, and it is one line more than there are line feeds in the comment. -/
theorem lines_break_in_comments (vault : Path) (now : Instant) :
    (∀ text pub, PublicKey.ofText text = .ok pub → Condenses text pub.line pub.comment.toList ∧
      ('\n' ∉ Text.trim text.toList → (Text.lines (pub.line ++ "\n").toList).length = 1)) ∧
    (∀ req w k w', outcome (generate vault req now) w = (.ok k, w') →
      ∃ text pub, w'.disk.readText k.publicFile = .ok text ∧ PublicKey.ofText text = .ok pub ∧
        k.publicLine = pub.line ∧ Condenses text k.publicLine pub.comment.toList) ∧
    ∀ req w k w', w.disk.WellFormed →
      outcome (importKey vault req now) w = (.ok k, w') →
      ∃ text found t pub path, Supplies req w text found t ∧ PublicKey.ofText text = .ok pub ∧
        k.publicLine = pub.line ∧ Condenses text k.publicLine pub.comment.toList ∧
        Shelves vault req.name pub w.disk found path w'.disk := by
  refine ⟨fun text pub read => ?_, fun req w k w' => condenses_of_generate,
    fun req w k w' => condenses_of_importKey⟩
  have condenses := condenses_of_ofText read
  exact ⟨condenses, condenses.single⟩

/-- Two keys on two lines, the shortest of their type. -/
def twoKeys : String := "ssh-ed25519 AAAAC3NzaC1lZDI1NTE5 alice\nssh-ed25519 AAAAC3NzaC1lZDI1NTE5 bob"

/-- They are to be taken in for the key `id`. -/
def twoGiven : ImportedKey := ⟨"work", "id", some twoKeys, none, []⟩

def doubledWorld : World := (outcome (importKey "vault" twoGiven ⟨0, 0⟩) Request.freshWorld).2

/-- They are read as one key with both lines, and so they come on record and into the copy. -/
theorem lines_break_in_comments_of_twoKeys : Request.freshWorld.disk.WellFormed ∧
    ∃ k pub,
      outcome (importKey "vault" twoGiven ⟨0, 0⟩) Request.freshWorld = (.ok k, doubledWorld) ∧
      PublicKey.ofText twoKeys = .ok pub ∧ Condenses twoKeys k.publicLine pub.comment.toList ∧
      k.publicLine = twoKeys ∧ doubledWorld.disk.readText "vault/keys/work.pub" = .ok (twoKeys ++ "\n") ∧
      (Text.lines (k.publicLine ++ "\n").toList).length = 2 := by
  have sound : Request.freshWorld.disk.WellFormed := wellFormed_of_entries (by decide +kernel)
  have shown : (PublicKey.ofText twoKeys).toOption.map (fun pub => (pub.line, pub.comment.toList.count '\n')) =
      some (twoKeys, 1) := by
    decide +kernel
  have facts : (outcome (importKey "vault" twoGiven ⟨0, 0⟩) Request.freshWorld).1.isOk = true ∧
      doubledWorld.disk.readText "vault/keys/work.pub" = .ok (twoKeys ++ "\n") := by
    decide +kernel
  obtain ⟨done, copy⟩ := facts
  rcases run : outcome (importKey "vault" twoGiven ⟨0, 0⟩) Request.freshWorld with ⟨_ | k, w'⟩
  · rw [run] at done
    cases done
  obtain rfl : doubledWorld = w' := by rw [doubledWorld, run]
  obtain ⟨text, found, t, pub, path, supplies, read, line, condenses, -⟩ :=
    (lines_break_in_comments "vault" ⟨0, 0⟩).2.2 twoGiven _ k doubledWorld sound run
  cases supplies with
  | given is =>
    cases is
    rw [read] at shown
    obtain ⟨same, feeds⟩ := Prod.mk.inj (Option.some.inj shown)
    exact ⟨sound, k, pub, rfl, read, condenses, line.trans same, copy, by rw [condenses.lines, feeds]⟩
  | beside ungiven => cases ungiven
  | derived ungiven => cases ungiven

end Lifecycle

end Keyring

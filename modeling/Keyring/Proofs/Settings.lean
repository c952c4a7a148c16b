import Keyring.Proofs.Inventory.Storage
import Keyring.Proofs.Yaml.Records

/-!
# Settings that are edited and kept

One field of the settings is set from a text at a time. What a call does depends on its field and value
alone, and it touches no other field, so after any calls each field has what the last one for it that was
not refused has put there (`Settings.field?_editedBy`). Numbers stay in the range in which they are read
again, from the text that was loaded and through every edit (`Settings.IsStorable`), and each field is written
as one scalar (`Settings.readsBack_data`), so what is saved at last is loaded as it was
(`Store.settings_edited_and_kept`).
-/

namespace Keyring

namespace Reading

/-- Whatever is read is of this kind. -/
def Yields {β : Type} (P : β → Prop) (r : Reading β) : Prop := ∀ budget b left, r budget = some (b, left) → P b

namespace Yields

variable {α β : Type} {P : α → Prop} {Q : β → Prop}

theorem pure {a : α} (holds : P a) : Yields P (Pure.pure a : Reading α) := by
  rintro budget _ _ ⟨⟩
  exact holds

theorem bind {x : Reading α} {f : α → Reading β} (first : Yields P x) (next : ∀ a, P a → Yields Q (f a)) :
    Yields Q (x >>= f) := by
  intro budget b left read
  have steps : (x budget).bind (fun r => f r.1 r.2) = some (b, left) := read
  obtain ⟨⟨a, budget'⟩, here, rest⟩ := Option.bind_eq_some_iff.mp steps
  exact next a (first budget a budget' here) budget' b left rest

theorem any (r : Reading α) : Yields (fun _ => True) r := fun _ _ _ _ => trivial

end Yields

end Reading

namespace Format

open Reading

variable {α β : Type} [Format α] {P : β → Prop} {read : α → Reading β}

theorem yields_wholeBelow (bound : Nat) (a : α) : Yields (· < bound) (wholeBelow bound a) := by
  refine .bind (.any _) fun n _ => ?_
  split
  · exact .pure ‹_›
  · rintro _ _ _ ⟨⟩

omit [Format α] in
theorem yields_withDefault {fallback : β} (fits : P fallback) (each : ∀ a, Yields P (read a))
    (fields : List (String × α)) (name : String) : Yields P (withDefault fields name fallback read) := by
  unfold withDefault
  split
  · exact each _
  · exact .pure fits

theorem yields_optionalField (each : ∀ a, Yields P (read a)) (fields : List (String × α)) (name : String) :
    Yields (fun b => ∀ c, b = some c → P c) (optionalField fields name read) := by
  unfold optionalField
  split
  · exact .pure nofun
  refine .bind (.any _) fun given _ => ?_
  split
  · refine .bind (each _) fun c holds => .pure ?_
    rintro _ ⟨⟩
    exact holds
  · exact .pure nofun

end Format

/-! ## Settings on record -/

namespace Settings

variable {s s' t : Settings} {field value name : String} {e : Error} {edits : List (String × String)}

/-- Settings can be stored when their numbers are in the range in which they are read. -/
structure IsStorable (s : Settings) : Prop where
  defaultTtlDays : ∀ n, s.defaultTtlDays = some n → n < numberBound
  expiryWarningDays : s.expiryWarningDays < numberBound
  maxKeyAgeDays : s.maxKeyAgeDays < numberBound
  minRsaBits : s.minRsaBits < numberBound
  connectTimeoutSecs : s.connectTimeoutSecs < numberBound

theorem isStorable_initial : initial.IsStorable where
  defaultTtlDays := nofun
  expiryWarningDays := by decide
  maxKeyAgeDays := by decide
  minRsaBits := by decide
  connectTimeoutSecs := by decide

open Format Reading in
theorem yields_read? {α : Type} [Format α] (a : α) : Yields IsStorable (read? a) := by
  unfold read?
  dsimp only
  refine .bind (.any _) fun fields _ => .bind (.any _) fun algorithm _ => ?_
  have number : ∀ (name : String) (fallback : Nat), fallback < numberBound →
      Yields (· < numberBound) (withDefault fields name fallback (wholeBelow numberBound)) :=
    fun name _ fits => yields_withDefault (P := (· < numberBound)) fits (yields_wholeBelow numberBound) fields name
  refine .bind (yields_optionalField (yields_wholeBelow numberBound) _ _) fun ttl fits => ?_
  refine .bind (number _ _ isStorable_initial.expiryWarningDays) fun warning fits₁ => ?_
  refine .bind (number _ _ isStorable_initial.maxKeyAgeDays) fun age fits₂ => ?_
  refine .bind (number _ _ isStorable_initial.minRsaBits) fun bits fits₃ => ?_
  refine .bind (number _ _ isStorable_initial.connectTimeoutSecs) fun secs fits₄ => ?_
  exact .bind (.any _) fun sshConfig _ => .pure ⟨fits, fits₁, fits₂, fits₃, fits₄⟩

theorem isStorable_of_ofText {text : String} (loaded : ofText text = .ok s) : s.IsStorable := by
  unfold ofText at loaded
  split at loaded
  · obtain rfl := Except.ok.inj loaded
    exact isStorable_initial
  · unfold DocumentKind.read at loaded
    dsimp only at loaded
    split at loaded
    · rename_i read
      obtain rfl := Except.ok.inj loaded
      obtain ⟨doc, -, read⟩ := Option.bind_eq_some_iff.mp read
      obtain ⟨⟨_, left⟩, run, rfl⟩ := Option.map_eq_some_iff.mp read
      exact yields_read? _ _ _ _ run
    · cases loaded

attribute [local simp] data Data.field? List.lookup_append

theorem names_data (s : Settings) : s.data.names.Sublist fieldNames := by
  rw [data, Data.names]
  simp only [List.map_append]
  exact (List.Sublist.refl ["default_algorithm"]).append (Data.names_optionalField "default_ttl_days" _ _)
    |>.append (.refl ["expiry_warning_days", "max_key_age_days", "min_rsa_bits", "connect_timeout_secs"])
    |>.append (Data.names_optionalField "ssh_config" _ _)

open Format in
/-- Settings are read as themselves from whatever spells their data. -/
theorem reads {α : Type} [Format α] [LawfulFormat α] (storable : s.IsStorable) :
    Reads (read? : α → Reading Settings) s.data s := by
  intro a spells
  obtain ⟨values, shown, holds⟩ := record?_eq spells (s.names_data.nodup (by decide)) fieldNames
  rw [read?, shown, pure_bind]
  rw [withDefault_eq holds (by simp) (Algorithm.reads s.defaultAlgorithm), pure_bind]
  rw [optionalField_eq s.defaultTtlDays Data.ofNat holds (by simp) (fun _ => nofun)
    fun n is => reads_wholeBelow (storable.defaultTtlDays n is), pure_bind]
  dsimp only
  rw [withDefault_eq holds (by simp) (reads_wholeBelow storable.expiryWarningDays), pure_bind]
  rw [withDefault_eq holds (by simp) (reads_wholeBelow storable.maxKeyAgeDays), pure_bind]
  rw [withDefault_eq holds (by simp) (reads_wholeBelow storable.minRsaBits), pure_bind]
  rw [withDefault_eq holds (by simp) (reads_wholeBelow storable.connectTimeoutSecs), pure_bind]
  rw [optionalField_eq s.sshConfig .text holds (by simp) (fun _ => nofun) fun p _ => reads_text p, pure_bind]

theorem readsBack_data (s : Settings) : Yaml.ReadsBack s.data := by
  have isName : ∀ name ∈ fieldNames, Yaml.IsFieldName name := by decide +kernel
  have optional : ∀ {α : Type} (name : String) (value : Option α) (data : α → Data), (∀ a, Yaml.IsScalar (data a)) →
      ∀ f ∈ Data.optionalField name value data, Yaml.IsScalar f.2 := by
    intro α name value data scalar f member
    cases value with
    | none => cases member
    | some a =>
      rw [List.mem_singleton.mp member]
      exact scalar a
  refine Yaml.readsBack_of_isFlat (fun f member => ⟨isName f.1 ?_, ?_⟩) (by simp)
  · exact s.names_data.subset (List.mem_map_of_mem member)
  · simp only [List.mem_append, List.mem_cons, List.not_mem_nil, or_false] at member
    rcases member with ((rfl | lifetime) | rfl | rfl | rfl | rfl) | sshConfig
    · exact .text _
    · exact optional _ _ _ (fun n => .number n) f lifetime
    · exact .number _
    · exact .number _
    · exact .number _
    · exact .number _
    · exact optional _ _ _ .text f sshConfig

theorem ofText_text (storable : s.IsStorable) : ofText s.text = .ok s := by
  have first : s.text.toList.head? = some 'd' := by
    rw [text, DocumentKind.write, data, Yaml.documentText, String.toList_ofList]
    rfl
  rw [ofText, Text.isAllBlank_of_head first rfl, if_neg (by decide), text]
  obtain ⟨doc, parsed, spells⟩ := s.readsBack_data
  have reading : (read? : Yaml.View → Reading Settings) ⟨doc.anchored, doc.root⟩ = pure s := reads storable _ spells
  have read : doc.read? read? = some s := by
    rw [Yaml.Document.read?, reading]
    rfl
  rw [DocumentKind.read, DocumentKind.write, parsed, Option.bind_some, read]

/-! ## One call -/

/-- A call that is not refused, with what it does. -/
inductive Sets (s : Settings) (value : String) : String → Settings → Prop where
  | algorithm {a : Algorithm} : Algorithm.ofText value = .ok a →
      Sets s value "default_algorithm" { s with defaultAlgorithm := a }
  | noLifetime : isNone value = true → Sets s value "default_ttl_days" { s with defaultTtlDays := none }
  | lifetime {n : Nat} : n < numberBound → Sets s value "default_ttl_days" { s with defaultTtlDays := some n }
  | warningDays {n : Nat} : n < numberBound → Sets s value "expiry_warning_days" { s with expiryWarningDays := n }
  | keyAge {n : Nat} : n < numberBound → Sets s value "max_key_age_days" { s with maxKeyAgeDays := n }
  | rsaBits {n : Nat} : n < numberBound → Sets s value "min_rsa_bits" { s with minRsaBits := n }
  | timeout {n : Nat} : n < numberBound → Sets s value "connect_timeout_secs" { s with connectTimeoutSecs := n }
  | sshConfig (p : Option Path) : Sets s value "ssh_config" { s with sshConfig := p }

theorem lt_of_number {n : Nat} (read : number field value = .ok n) : n < numberBound := by
  unfold number at read
  split at read
  · rename_i m found
    obtain rfl := Except.ok.inj read
    exact of_decide_eq_true (Option.filter_eq_some_iff.mp found).2
  · cases read

theorem outcome_ofExcept {α : Type} (r : Except Error α) (s : Settings) :
    outcome (Settings.ofExcept r) s = (r, s) := by cases r <;> rfl

theorem still_ofExcept {α : Type} (r : Except Error α) : Still (Settings.ofExcept r) := by
  intro s
  rw [outcome_ofExcept]

theorem outcome_change {α : Type} (r : Except Error α) (change : α → Settings → Settings) (s : Settings) :
    outcome (do
      let a ← Settings.ofExcept r
      modify (change a)) s = match r with
      | .ok a => (.ok (), change a s)
      | .error e => (.error e, s) := by
  rw [outcome_bind, outcome_ofExcept]
  cases r <;> rfl

theorem of_outcome_change {α : Type} {r : Except Error α} {change : α → Settings → Settings}
    (done : outcome (do
      let a ← Settings.ofExcept r
      modify (change a)) s = (.ok (), s')) : ∃ a, r = .ok a ∧ change a s = s' := by
  rw [outcome_change] at done
  cases r with
  | error e => cases done
  | ok a => exact ⟨a, rfl, (Prod.mk.inj done).2⟩

/-- A call that is refused leaves the settings as they are. -/
theorem atomic_set (field value : String) : Atomic (set field value) := by
  have atomic {α : Type} (r : Except Error α) (change : α → Settings → Settings) : Atomic (do
      let a ← Settings.ofExcept r
      modify (change a)) := .after (still_ofExcept r) fun _ => (Total.modify _).atomic
  unfold set
  split
  · exact atomic _ _
  · exact atomic _ _
  · exact atomic _ _
  · exact atomic _ _
  · exact atomic _ _
  · exact atomic _ _
  · exact (Total.modify _).atomic
  · exact (still_throw _).atomic

theorem sets_of_set (done : outcome (set field value) s = (.ok (), s')) : Sets s value field s' := by
  unfold set at done
  split at done
  · obtain ⟨a, read, rfl⟩ := of_outcome_change done
    exact .algorithm read
  · obtain ⟨days, read, rfl⟩ := of_outcome_change done
    split at read
    · obtain rfl := Except.ok.inj read
      exact .noLifetime ‹_›
    · rcases counted : number "default_ttl_days" value with e | n <;> rw [counted] at read
      · cases read
      · obtain rfl := Except.ok.inj read
        exact .lifetime (lt_of_number counted)
  · obtain ⟨n, read, rfl⟩ := of_outcome_change done
    exact .warningDays (lt_of_number read)
  · obtain ⟨n, read, rfl⟩ := of_outcome_change done
    exact .keyAge (lt_of_number read)
  · obtain ⟨n, read, rfl⟩ := of_outcome_change done
    exact .rsaBits (lt_of_number read)
  · obtain ⟨n, read, rfl⟩ := of_outcome_change done
    exact .timeout (lt_of_number read)
  · obtain rfl := (Prod.mk.inj done).2
    exact .sshConfig _
  · cases done

theorem Sets.isStorable (sets : Sets s value field s') (storable : s.IsStorable) : s'.IsStorable := by
  cases sets with
  | algorithm => exact { storable with }
  | noLifetime => exact { storable with defaultTtlDays := nofun }
  | lifetime small =>
    refine { storable with defaultTtlDays := ?_ }
    rintro _ ⟨⟩
    exact small
  | warningDays small => exact { storable with expiryWarningDays := small }
  | keyAge small => exact { storable with maxKeyAgeDays := small }
  | rsaBits small => exact { storable with minRsaBits := small }
  | timeout small => exact { storable with connectTimeoutSecs := small }
  | sshConfig => exact { storable with }

theorem Sets.field?_eq (sets : Sets s value field s') (apart : name ≠ field) :
    s'.data.field? name = s.data.field? name := by
  cases sets <;> simp [apart]

/-- What a call puts into its field, or why it is refused. -/
def told (s : Settings) (field value : String) : Except Error (Option Data) :=
  (outcome (set field value) s).1.map fun _ => (outcome (set field value) s).2.data.field? field

theorem told_eq (s t : Settings) (field value : String) : s.told field value = t.told field value := by
  have alike {α : Type} {field : String} {r : Except Error α} {change : α → Settings → Settings}
      (same : ∀ a, (change a s).data.field? field = (change a t).data.field? field) :
      ((outcome (do
          let a ← Settings.ofExcept r
          modify (change a)) s).1.map fun _ => (outcome (do
          let a ← Settings.ofExcept r
          modify (change a)) s).2.data.field? field) =
        (outcome (do
          let a ← Settings.ofExcept r
          modify (change a)) t).1.map fun _ => (outcome (do
          let a ← Settings.ofExcept r
          modify (change a)) t).2.data.field? field := by
    rw [outcome_change, outcome_change]
    cases r with
    | error e => rfl
    | ok a => exact congrArg _ (same a)
  unfold told set
  split
  · exact alike fun a => by simp
  · exact alike fun a => by cases a <;> simp
  · exact alike fun a => by simp
  · exact alike fun a => by simp
  · exact alike fun a => by simp
  · exact alike fun a => by simp
  · simp [Except.map]
  · rfl

/-- What a call puts into its field, whatever the settings are, or why it is refused. -/
def given (field value : String) : Except Error (Option Data) := initial.told field value

def edited (s : Settings) (call : String × String) : Settings := (outcome (set call.1 call.2) s).2

def editedBy (s : Settings) (calls : List (String × String)) : Settings := calls.foldl edited s

theorem edited_of_error (refused : (outcome (set field value) s).1 = .error e) : s.edited (field, value) = s :=
  atomic_set field value s e refused

theorem sets_edited (done : (outcome (set field value) s).1 = .ok ()) : Sets s value field (s.edited (field, value)) :=
  sets_of_set (Prod.ext done rfl)

theorem editedBy_concat (s : Settings) (calls : List (String × String)) (call : String × String) :
    s.editedBy (calls ++ [call]) = (s.editedBy calls).edited call := by
  rw [editedBy, List.foldl_append]
  rfl

theorem IsStorable.editedBy (storable : s.IsStorable) (calls : List (String × String)) :
    (s.editedBy calls).IsStorable := by
  induction calls using List.reverseRecOn with
  | nil => exact storable
  | append_singleton calls call ih =>
    obtain ⟨field, value⟩ := call
    rw [editedBy_concat]
    cases done : (outcome (set field value) (s.editedBy calls)).1 with
    | error e => rwa [edited_of_error done]
    | ok u => exact (sets_edited done).isStorable ih

/-- What a call does to a field of this name, if it does anything. -/
def givenFor (name : String) (call : String × String) : Option (Option Data) :=
  if call.1 = name then (given call.1 call.2).toOption else none

/-- What the last call does to it that does anything. -/
def lastGiven (name : String) (calls : List (String × String)) : Option (Option Data) :=
  calls.reverse.findSome? (givenFor name)

theorem field?_edited (s : Settings) (call : String × String) (name : String) :
    (s.edited call).data.field? name = (givenFor name call).getD (s.data.field? name) := by
  obtain ⟨field, value⟩ := call
  rw [givenFor, given, told_eq initial s, told]
  dsimp only
  cases done : (outcome (set field value) s).1 with
  | error e =>
    rw [edited_of_error done]
    split <;> rfl
  | ok u =>
    split
    · rename_i same
      rw [← same]
      rfl
    · rename_i apart
      exact (sets_edited done).field?_eq (Ne.symm apart)

/-- A field has what the last call that does anything to it put there, or else what it had. -/
theorem field?_editedBy (s : Settings) (calls : List (String × String)) (name : String) :
    (s.editedBy calls).data.field? name = (lastGiven name calls).getD (s.data.field? name) := by
  induction calls using List.reverseRecOn with
  | nil => rfl
  | append_singleton calls call ih =>
    rw [editedBy_concat, field?_edited, ih, lastGiven, lastGiven, List.reverse_concat, List.findSome?_cons]
    cases givenFor name call <;> rfl

end Settings

namespace Store

variable {vault : Path} {w : World} {text : String} {s : Settings}

/-- Where a text was read settings can be saved, and are loaded again. -/
theorem loadSettings_of_saveSettings (sound : w.disk.WellFormed)
    (read : w.disk.readText (Layout.settingsFile vault) = .ok text) (storable : s.IsStorable) :
    ∃ w', outcome (saveSettings s vault) w = (.ok (), w') ∧ loadSettings w'.disk vault = .ok s := by
  obtain ⟨at_, mode, modified, found⟩ := Disk.find_of_readText read
  have written : ∃ d' at_ modified,
      outcome (Disk.writeWhole (Layout.settingsFile vault) (.text s.text)) w.disk = (.ok (), d') ∧
        d'.find true (Layout.settingsFile vault) = .ok (at_, .file (.text s.text) Disk.privateFileMode modified) :=
    Disk.writeWhole_over sound found rfl
  obtain ⟨d', _, _, run, found'⟩ := written
  refine ⟨{ w with disk := d' }, ?_, ?_⟩
  · rw [saveSettings, Op.outcome_onDisk, run]
  · have again := Disk.readOptional_of_readText (Disk.readText_of_find found')
    rw [loadSettings, readDocument, again]
    simp only [bind, Except.bind]
    exact Settings.ofText_text storable

/-- Settings are loaded from a text and edited by calls. A call that is refused leaves them, and another one changes
no field but its own; in the end every field has what the last call did to it, or else what was loaded. They can be
saved, and are loaded again as they are. -/
theorem settings_edited_and_kept (sound : w.disk.WellFormed)
    (read : w.disk.readText (Layout.settingsFile vault) = .ok text) (loaded : Settings.ofText text = .ok s)
    (calls : List (String × String)) :
    (∀ front field value rest, calls = front ++ (field, value) :: rest →
      let before := s.editedBy front
      let after := s.editedBy (front ++ [(field, value)])
      (∀ e, (outcome (Settings.set field value) before).1 = .error e → after = before) ∧
      ((outcome (Settings.set field value) before).1 = .ok () →
        ∀ name, name ≠ field → after.data.field? name = before.data.field? name)) ∧
    (∀ name, (s.editedBy calls).data.field? name =
      (Settings.lastGiven name calls).getD (s.data.field? name)) ∧
    ∃ w', outcome (saveSettings (s.editedBy calls) vault) w = (.ok (), w') ∧
      loadSettings w'.disk vault = .ok (s.editedBy calls) := by
  refine ⟨fun front field value rest _ => ?_, Settings.field?_editedBy s calls, ?_⟩
  · intro before after
    have step : after = before.edited (field, value) := Settings.editedBy_concat s front (field, value)
    refine ⟨fun e refused => step.trans (Settings.edited_of_error refused), fun done name apart => ?_⟩
    rw [step]
    exact (Settings.sets_edited done).field?_eq apart
  · exact loadSettings_of_saveSettings sound read ((Settings.isStorable_of_ofText loaded).editedBy calls)

/-- A lifetime, and a path that YAML has to quote; all else is as at first. -/
def wordyText : String := "default_ttl_days: 30\nssh_config: '~'\n"

def wordySettings : Settings := { Settings.initial with defaultTtlDays := some 30, sshConfig := some "~" }

def wordyWorld : World :=
  let entries := [(["vault"], .directory 0o700),
    (["vault", "config.yaml"], .file (.text wordyText) 0o600 ⟨0, 0⟩)]
  { bareWorld .empty with disk := { Disk.emptyDisk with entries := entries } }

/-- No lifetime, a number that is too large, the largest one, and another such path. -/
def wordyCalls : List (String × String) :=
  [("default_ttl_days", "NONE"), ("min_rsa_bits", "4294967296"), ("expiry_warning_days", "4294967295"),
    ("ssh_config", "null")]

theorem settings_edited_and_kept_of_wordyWorld : ∃ w',
    outcome (saveSettings (wordySettings.editedBy wordyCalls) "vault") wordyWorld = (.ok (), w') ∧
    loadSettings w'.disk "vault" =
      .ok { Settings.initial with expiryWarningDays := 4294967295, sshConfig := some "null" } := by
  have sound : wordyWorld.disk.WellFormed := Disk.wellFormed_of_entries (by decide +kernel)
  have read : wordyWorld.disk.readText (Layout.settingsFile "vault") = .ok wordyText := by decide +kernel
  have loaded : Settings.ofText wordyText = .ok wordySettings := by decide +kernel
  have final : wordySettings.editedBy wordyCalls =
      { Settings.initial with expiryWarningDays := 4294967295, sshConfig := some "null" } := by decide +kernel
  obtain ⟨w', saved, kept⟩ := (settings_edited_and_kept sound read loaded wordyCalls).2.2
  rw [final] at kept
  exact ⟨w', saved, kept⟩

end Store

end Keyring

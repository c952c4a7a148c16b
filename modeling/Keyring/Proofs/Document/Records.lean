import Keyring.Inventory.Document
import Keyring.Proofs.Document.Json
import Keyring.Proofs.Document.Reading

/-!
# Records there and back

Each record that is written is read as itself, in every format: a field that may
be left out is left out exactly where reading falls back on its value.
-/

namespace Keyring

open Format

variable {α : Type} [Format α] [LawfulFormat α]

attribute [local simp] List.lookup_append

/-- The names of the fields of a record. -/
def Data.names : Data → List String
  | .record fields => fields.map Prod.fst
  | _ => []

@[simp] theorem lookup_field (name other : String) (d : Data) (fields : List (String × Data)) :
    ((name, d) :: fields).lookup other = if other = name then some d else fields.lookup other := by
  rw [List.lookup_cons]
  by_cases same : other = name
  · simp [same]
  · rw [beq_false_of_ne same, if_neg same]

@[simp] theorem Data.lookup_optionalField {β : Type} (name other : String) (value : Option β) (data : β → Data) :
    (Data.optionalField name value data).lookup other = if other = name then value.map data else none := by
  cases value <;> simp [Data.optionalField]

@[simp] theorem Data.lookup_nonemptyField (name other : String) (items : List Data) :
    (Data.nonemptyField name items).lookup other =
      if other = name then if items = [] then none else some (.list items) else none := by
  cases items <;> simp [Data.nonemptyField]

theorem Data.names_optionalField {β : Type} (name : String) (value : Option β) (data : β → Data) :
    ((Data.optionalField name value data).map Prod.fst).Sublist [name] := by
  cases value <;> simp [Data.optionalField]

theorem Data.names_nonemptyField (name : String) (items : List Data) :
    ((Data.nonemptyField name items).map Prod.fst).Sublist [name] := by
  cases items <;> simp [Data.nonemptyField]

theorem Algorithm.reads (a : Algorithm) : Reads (Algorithm.read? : α → Reading Algorithm) a.data a :=
  reads_oneOf (Algorithm.ofName?_name a)

theorem KeyStatus.reads (s : KeyStatus) : Reads (KeyStatus.read? : α → Reading KeyStatus) s.data s :=
  reads_oneOf (KeyStatus.ofName?_name s)

theorem DeployMethod.reads (m : DeployMethod) : Reads (DeployMethod.read? : α → Reading DeployMethod) m.data m :=
  reads_oneOf (DeployMethod.ofName?_name m)

/-! ## Records

A record can be stored when its numbers are in range and its instants read back. -/

structure Key.IsStorable (k : Key) : Prop where
  bits : ∀ n, k.bits = some n → n < Nat.pow 2 32
  createdAt : k.createdAt.ReadsBack
  expiresAt : ∀ t, k.expiresAt = some t → t.ReadsBack

structure Host.IsStorable (h : Host) : Prop where
  port : h.port < Nat.pow 2 16
  addedAt : h.addedAt.ReadsBack
  lastChecked : ∀ t, h.lastChecked = some t → t.ReadsBack

structure Deployment.IsStorable (d : Deployment) : Prop where
  deployedAt : d.deployedAt.ReadsBack
  verifiedAt : ∀ t, d.verifiedAt = some t → t.ReadsBack

structure Inventory.IsStorable (inv : Inventory) : Prop where
  version : inv.version < Nat.pow 2 32
  keys : ∀ k ∈ inv.keys, k.IsStorable
  hosts : ∀ h ∈ inv.hosts, h.IsStorable
  deployments : ∀ d ∈ inv.deployments, d.IsStorable

/-! Each record has the fields that it declares, in their order, save those that are left out. -/

theorem Key.names_data (k : Key) : k.data.names.Sublist fieldNames := by
  rw [Key.data, Data.names]
  simp only [List.map_append]
  exact (List.Sublist.refl ["name", "algorithm"]).append (Data.names_optionalField "bits" _ _)
    |>.append (.refl ["comment", "fingerprint", "private_key_path", "public_key_path", "public_key", "created_at"])
    |>.append (Data.names_optionalField "expires_at" _ _)
    |>.append (.refl ["status"])
    |>.append (Data.names_optionalField "rotated_from" _ _)
    |>.append (Data.names_optionalField "rotated_to" _ _)
    |>.append (.refl ["managed"])
    |>.append (Data.names_nonemptyField "tags" _)

theorem Host.names_data (h : Host) : h.data.names.Sublist fieldNames := by
  rw [Host.data, Data.names]
  simp only [List.map_append]
  exact (List.Sublist.refl ["alias", "hostname", "user", "port"]).append (Data.names_optionalField "identity" _ _)
    |>.append (Data.names_nonemptyField "tags" _)
    |>.append (.refl ["added_at"])
    |>.append (Data.names_optionalField "last_checked" _ _)
    |>.append (Data.names_optionalField "last_check_ok" _ _)
    |>.append (Data.names_optionalField "last_check_error" _ _)

theorem Deployment.names_data (d : Deployment) : d.data.names.Sublist fieldNames := by
  rw [Deployment.data, Data.names]
  simp only [List.map_append]
  exact (List.Sublist.refl ["key", "host", "deployed_at", "method"]).append
    (Data.names_optionalField "verified_at" _ _)

theorem Key.reads {k : Key} (storable : k.IsStorable) : Reads (Key.read? : α → Reading Key) k.data k := by
  intro a spells
  obtain ⟨values, shown, holds⟩ := record?_eq spells (k.names_data.nodup (by decide)) fieldNames
  rw [Key.read?, shown, pure_bind]
  rw [required_eq holds (by simp) (reads_text k.name), pure_bind]
  rw [required_eq holds (by simp) (Algorithm.reads k.algorithm), pure_bind]
  rw [optionalField_eq k.bits Data.ofNat holds (by simp) (fun _ => nofun)
    fun n is => reads_wholeBelow (storable.bits n is), pure_bind]
  rw [withDefault_eq holds (by simp) (reads_text k.comment), pure_bind]
  rw [required_eq holds (by simp) (reads_text k.fingerprint), pure_bind]
  rw [required_eq holds (by simp) (reads_text k.privateFile), pure_bind]
  rw [required_eq holds (by simp) (reads_text k.publicFile), pure_bind]
  rw [required_eq holds (by simp) (reads_text k.publicLine), pure_bind]
  rw [required_eq holds (by simp) (reads_instant storable.createdAt), pure_bind]
  rw [optionalField_eq k.expiresAt Data.ofInstant holds (by simp) (fun _ => nofun)
    fun t is => reads_instant (storable.expiresAt t is), pure_bind]
  rw [withDefault_eq holds (by simp) (KeyStatus.reads k.status), pure_bind]
  rw [optionalField_eq k.rotatedFrom .text holds (by simp) (fun _ => nofun) fun s _ => reads_text s, pure_bind]
  rw [optionalField_eq k.rotatedTo .text holds (by simp) (fun _ => nofun) fun s _ => reads_text s, pure_bind]
  rw [withDefault_eq holds (by simp) (reads_flag k.managed), pure_bind]
  rw [withDefault_texts_eq k.tags holds (by simp), pure_bind]

theorem Host.reads {h : Host} (storable : h.IsStorable) : Reads (Host.read? : α → Reading Host) h.data h := by
  intro a spells
  obtain ⟨values, shown, holds⟩ := record?_eq spells (h.names_data.nodup (by decide)) fieldNames
  rw [Host.read?, shown, pure_bind]
  rw [required_eq holds (by simp) (reads_text h.label), pure_bind]
  rw [required_eq holds (by simp) (reads_text h.hostname), pure_bind]
  rw [required_eq holds (by simp) (reads_text h.user), pure_bind]
  rw [withDefault_eq holds (by simp) (reads_wholeBelow storable.port), pure_bind]
  rw [optionalField_eq h.identity .text holds (by simp) (fun _ => nofun) fun s _ => reads_text s, pure_bind]
  rw [withDefault_texts_eq h.tags holds (by simp), pure_bind]
  rw [required_eq holds (by simp) (reads_instant storable.addedAt), pure_bind]
  rw [optionalField_eq h.lastChecked Data.ofInstant holds (by simp) (fun _ => nofun)
    fun t is => reads_instant (storable.lastChecked t is), pure_bind]
  rw [optionalField_eq h.lastCheckOk .flag holds (by simp) (fun _ => nofun) fun b _ => reads_flag b, pure_bind]
  rw [optionalField_eq h.lastCheckError .text holds (by simp) (fun _ => nofun) fun s _ => reads_text s, pure_bind]

theorem Deployment.reads {d : Deployment} (storable : d.IsStorable) :
    Reads (Deployment.read? : α → Reading Deployment) d.data d := by
  intro a spells
  obtain ⟨values, shown, holds⟩ := record?_eq spells (d.names_data.nodup (by decide)) fieldNames
  rw [Deployment.read?, shown, pure_bind]
  rw [required_eq holds (by simp) (reads_text d.key), pure_bind]
  rw [required_eq holds (by simp) (reads_text d.host), pure_bind]
  rw [required_eq holds (by simp) (reads_instant storable.deployedAt), pure_bind]
  rw [required_eq holds (by simp) (DeployMethod.reads d.method), pure_bind]
  rw [optionalField_eq d.verifiedAt Data.ofInstant holds (by simp) (fun _ => nofun)
    fun t is => reads_instant (storable.verifiedAt t is), pure_bind]

/-- An inventory is read as itself from whatever spells its data. -/
theorem Inventory.reads {inv : Inventory} (storable : inv.IsStorable) :
    Reads (Inventory.read? : α → Reading Inventory) inv.data inv := by
  intro a spells
  obtain ⟨values, shown, holds⟩ := record?_eq spells (show fieldNames.Nodup by decide) fieldNames
  rw [Inventory.read?, shown, pure_bind]
  rw [withDefault_eq holds (by simp) (reads_wholeBelow storable.version), pure_bind]
  rw [withDefault_eq holds (by simp) (reads_listOf fun k member => Key.reads (storable.keys k member)), pure_bind]
  rw [withDefault_eq holds (by simp) (reads_listOf fun h member => Host.reads (storable.hosts h member)), pure_bind]
  rw [withDefault_eq holds (by simp)
    (reads_listOf fun d member => Deployment.reads (storable.deployments d member)), pure_bind]

namespace Json

theorem areWritable_iff {items : List Data} : AreWritable items ↔ ∀ d ∈ items, IsWritable d := by
  induction items with
  | nil => simp [AreWritable]
  | cons d items ih => simp [AreWritable, ih]

theorem haveWritable_iff {fields : List (String × Data)} : HaveWritable fields ↔ ∀ f ∈ fields, IsWritable f.2 := by
  induction fields with
  | nil => simp [HaveWritable]
  | cons f fields ih => simp [HaveWritable, ih]

theorem haveWritable_append {front back : List (String × Data)} :
    HaveWritable (front ++ back) ↔ HaveWritable front ∧ HaveWritable back := by
  simp only [haveWritable_iff, List.mem_append]
  exact ⟨fun all => ⟨fun f member => all f (.inl member), fun f member => all f (.inr member)⟩,
    fun both f member => member.elim (both.1 f) (both.2 f)⟩

theorem haveWritable_optionalField {β : Type} (name : String) (value : Option β) {data : β → Data}
    (each : ∀ b, IsWritable (data b)) : HaveWritable (Data.optionalField name value data) := by
  cases value with
  | none => trivial
  | some b => exact ⟨each b, trivial⟩

theorem isWritable_map {β : Type} {items : List β} {data : β → Data} (each : ∀ b, IsWritable (data b)) :
    IsWritable (.list (items.map data)) := by
  rw [IsWritable, areWritable_iff]
  intro d member
  obtain ⟨b, _, rfl⟩ := List.mem_map.mp member
  exact each b

theorem haveWritable_nonemptyField (name : String) (items : List String) :
    HaveWritable (Data.nonemptyField name (items.map .text)) := by
  rw [Data.nonemptyField]
  split
  · trivial
  · exact ⟨isWritable_map fun _ => trivial, trivial⟩

theorem isWritable_key (k : Key) : IsWritable k.data := by
  rw [Key.data, IsWritable]
  simp only [haveWritable_append]
  refine ⟨⟨⟨⟨⟨⟨⟨⟨?_, ?_⟩, ?_⟩, ?_⟩, ?_⟩, ?_⟩, ?_⟩, ?_⟩, ?_⟩
  all_goals first
    | exact haveWritable_optionalField _ _ fun _ => trivial
    | exact haveWritable_nonemptyField _ _
    | simp [HaveWritable, IsWritable, Algorithm.data, KeyStatus.data, Data.ofInstant]

theorem isWritable_host (h : Host) : IsWritable h.data := by
  rw [Host.data, IsWritable]
  simp only [haveWritable_append]
  refine ⟨⟨⟨⟨⟨⟨?_, ?_⟩, ?_⟩, ?_⟩, ?_⟩, ?_⟩, ?_⟩
  all_goals first
    | exact haveWritable_optionalField _ _ fun _ => trivial
    | exact haveWritable_nonemptyField _ _
    | simp [HaveWritable, IsWritable, Data.ofNat, Data.ofInstant]

theorem isWritable_deployment (d : Deployment) : IsWritable d.data := by
  rw [Deployment.data, IsWritable]
  simp only [haveWritable_append]
  refine ⟨?_, haveWritable_optionalField _ _ fun _ => trivial⟩
  simp [HaveWritable, IsWritable, DeployMethod.data, Data.ofInstant]

theorem isWritable_inventory (inv : Inventory) : IsWritable inv.data :=
  ⟨trivial, isWritable_map isWritable_key, isWritable_map isWritable_host,
    isWritable_map isWritable_deployment, trivial⟩

end Json

end Keyring

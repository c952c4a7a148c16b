import Keyring.Audit
import Keyring.Proofs.Inventory.Lookup
import Keyring.Proofs.Time.Span
import Mathlib.Data.List.Perm.Basic
import Mathlib.Data.String.Basic

/-!
# What an audit finds

The rules stand in a table: each has its severity, and each is broken by a record so many
times (`keyBreaches`, `hostBreaches`). An audit reports just that and the problems of the
inventory, in order, with one exception that is meant: an RSA key so short that its
algorithm is weak is not reported once more for its size (`report_marks`).
-/

namespace Keyring.Audit

open Time

def Rule.severity : Rule → Severity
  | .keyExpired | .weakAlgorithm | .missingKeyFile | .insecurePermissions | .revokedKeyDeployed
  | .inventoryInconsistent => .critical
  | .keyExpiring | .keyTooOld | .weakKeySize | .rotatedKeyDeployed | .revokedIdentity
  | .hostUnreachable => .warning
  | .noExpiry | .unusedKey | .hostWithoutIdentity => .info

/-- Once, where something holds. -/
def once (P : Prop) [Decidable P] : Nat := if P then 1 else 0

/-- How often a key breaks each rule. All rules but those on deployments are for active keys. -/
def keyBreaches (inv : Inventory) (p : Policy) (now : Instant) (k : Key) : Rule → Nat
  | .keyExpired => once (k.status = .active ∧ ∃ last ∈ k.expiresAt, last ≤ now)
  | .keyExpiring => once (k.status = .active ∧ ∃ last ∈ k.expiresAt, ¬ last ≤ now ∧
      last.since now < p.expiryWarningDays * Instant.nanosPerDay)
  | .noExpiry => once (k.status = .active ∧ k.expiresAt = none)
  | .keyTooOld => once (k.status = .active ∧
      (p.maxKeyAgeDays + 1) * Instant.nanosPerDay ≤ now.since k.createdAt)
  | .weakAlgorithm => once (k.status = .active ∧
      (k.algorithm = .dsa ∨ k.algorithm = .rsa ∧ ∃ bits ∈ k.bits, bits < 2048))
  | .weakKeySize => once (k.status = .active ∧ k.algorithm = .rsa ∧ ∃ bits ∈ k.bits, bits < p.minRsaBits)
  | .missingKeyFile => match p.files with
    | some d => if k.status = .active then [k.privateFile, k.publicFile].countP (!d.exists_ ·) else 0
    | none => 0
  | .insecurePermissions => match p.files with
    | some d => once (k.status = .active ∧ ∃ mode ∈ (d.mode k.privateFile).toOption, mode % 0o100 ≠ 0)
    | none => 0
  | .revokedKeyDeployed => once (k.status = .revoked ∧ ∃ d ∈ inv.deployments, d.key = k.name)
  | .rotatedKeyDeployed => once (k.status = .rotated ∧ ∃ d ∈ inv.deployments, d.key = k.name)
  | .unusedKey => once (k.status = .active ∧ (∀ d ∈ inv.deployments, d.key ≠ k.name) ∧
      ∀ h ∈ inv.hosts, h.identity ≠ some k.name)
  | .revokedIdentity | .hostUnreachable | .hostWithoutIdentity | .inventoryInconsistent => 0

/-- How often a host breaks each rule. -/
def hostBreaches (inv : Inventory) (h : Host) : Rule → Nat
  | .revokedIdentity => once (∃ k ∈ inv.identityOf? h, k.status ≠ .active)
  | .hostUnreachable => once (h.lastCheckOk = some false)
  | .hostWithoutIdentity => once (h.identity = none)
  | _ => 0

/-- An RSA key whose algorithm is weak is not reported for its size. -/
def reported (breaches : Rule → Nat) (r : Rule) : Nat :=
  if r = .weakKeySize ∧ breaches .weakAlgorithm ≠ 0 then 0 else breaches r

/-- A finding without its message. -/
structure Mark where
  severity : Severity
  rule : Rule
  subject : String
deriving DecidableEq, Repr

def Finding.mark (f : Finding) : Mark := ⟨f.severity, f.rule, f.subject⟩

/-- A rule marked on a subject so many times. -/
def Rule.marks (r : Rule) (subject : String) (times : Nat) : List Mark :=
  List.replicate times ⟨r.severity, r, subject⟩

def marksOn (subject : String) (times : Rule → Nat) : List Mark :=
  Rule.all.flatMap fun r => r.marks subject (times r)

/-- What is to be found, as the table has it: each rule as often as `keys` says for a key. -/
def expected (inv : Inventory) (keys : Key → Rule → Nat) : List Mark :=
  Rule.inventoryInconsistent.marks "inventory" inv.check.length ++
    inv.keys.flatMap (fun k => marksOn k.name (keys k)) ++
    inv.hosts.flatMap fun h => marksOn h.label (hostBreaches inv h)

variable {inv : Inventory} {p : Policy} {now : Instant} {k : Key} {h : Host} {d : Disk}

theorem marks_once (r : Rule) (subject : String) (P : Prop) [Decidable P] :
    r.marks subject (once P) = if P then [⟨r.severity, r, subject⟩] else [] := by
  unfold once Rule.marks
  split
  · rfl
  · rfl

/-! ## Findings on keys -/

/-- What a key is to be reported for by a rule. -/
def owed (inv : Inventory) (p : Policy) (now : Instant) (k : Key) (r : Rule) : List Mark :=
  r.marks k.name (reported (keyBreaches inv p now k) r)

theorem owed_of_ne {r : Rule} (other : r ≠ .weakKeySize) :
    owed inv p now k r = r.marks k.name (keyBreaches inv p now k r) := by
  simp [owed, reported, other]

theorem deployedFindings_marks (inv : Inventory) (p : Policy) (now : Instant) (k : Key) :
    (deployedFindings inv k).map Finding.mark =
    owed inv p now k .revokedKeyDeployed ++ owed inv p now k .rotatedKeyDeployed := by
  rw [owed_of_ne (by decide), owed_of_ne (by decide)]
  simp only [keyBreaches, marks_once]
  unfold deployedFindings
  by_cases nowhere : inv.hostNamesOf k.name = []
  · have none := Inventory.hostNamesOf_eq_nil_iff.mp nowhere
    have unmet : ¬∃ d ∈ inv.deployments, d.key = k.name := fun ⟨d, inside, is⟩ => none d inside is
    simp [nowhere, unmet]
  · have some : ∃ d ∈ inv.deployments, d.key = k.name := by
      rw [Inventory.hostNamesOf_eq_nil_iff] at nowhere
      simpa using nowhere
    cases status : k.status with
    | active => simp [nowhere]
    | rotated => simp [nowhere, some, Finding.mark, Rule.severity]
    | revoked => simp [nowhere, some, Finding.mark, Rule.severity]

theorem expiryFindings_marks (inv : Inventory) (active : k.status = .active) :
    (expiryFindings p now k).map Finding.mark =
      owed inv p now k .keyExpired ++ owed inv p now k .keyExpiring ++ owed inv p now k .noExpiry := by
  rw [owed_of_ne (by decide), owed_of_ne (by decide), owed_of_ne (by decide)]
  simp only [keyBreaches, marks_once, active, true_and]
  unfold expiryFindings Key.expiry Expiry.at_
  cases k.expiresAt with
  | none => simp [Finding.mark, Rule.severity]
  | some last =>
    by_cases past : last ≤ now
    · simp [past, Finding.mark, Rule.severity]
    · by_cases near : last.since now < p.expiryWarningDays * Instant.nanosPerDay
      · simp [past, near, Finding.mark, Rule.severity]
      · simp [past, near]

theorem ageFindings_marks (inv : Inventory) (active : k.status = .active) :
    (ageFindings p now k).map Finding.mark = owed inv p now k .keyTooOld := by
  rw [owed_of_ne (by decide)]
  simp only [keyBreaches, marks_once, active, true_and]
  unfold ageFindings Key.ageDays
  simp only [Instant.lt_wholeDays_iff]
  split
  · rfl
  · rfl

/-- The size of an RSA key counts only where its algorithm is not weak for it. -/
theorem strengthFindings_marks (inv : Inventory) (now : Instant) (active : k.status = .active) :
    (strengthFindings p k).map Finding.mark =
      owed inv p now k .weakAlgorithm ++ owed inv p now k .weakKeySize := by
  rw [owed_of_ne (by decide)]
  unfold owed reported
  simp only [keyBreaches, active, true_and]
  unfold strengthFindings
  cases k.algorithm with
  | dsa => simp [once, Rule.marks, Finding.mark, Rule.severity]
  | ed25519 => simp [once, Rule.marks]
  | ecdsa => simp [once, Rule.marks]
  | rsa =>
    cases k.bits with
    | none => simp [once, Rule.marks]
    | some bits =>
      by_cases weak : bits < 2048
      · simp [once, Rule.marks, Finding.mark, Rule.severity, Algorithm.rsaFloorBits, weak]
      · by_cases short : bits < p.minRsaBits
        · simp [once, Rule.marks, Finding.mark, Rule.severity, Algorithm.rsaFloorBits, weak, short]
        · simp [once, Rule.marks, Algorithm.rsaFloorBits, weak, short]

theorem unusedFindings_marks (p : Policy) (now : Instant) (active : k.status = .active) :
    (unusedFindings inv k).map Finding.mark = owed inv p now k .unusedKey := by
  rw [owed_of_ne (by decide)]
  simp only [keyBreaches, marks_once, active, true_and]
  unfold unusedFindings
  simp only [Inventory.hostNamesOf_eq_nil_iff, Inventory.hostsUsing_eq_nil_iff]
  split
  · rfl
  · rfl

theorem missingFileFindings_marks (d : Disk) (k : Key) : (missingFileFindings d k).map Finding.mark =
    Rule.missingKeyFile.marks k.name ([k.privateFile, k.publicFile].countP (!d.exists_ ·)) := by
  unfold missingFileFindings
  by_cases isPrivate : d.exists_ k.privateFile = true
  · by_cases isPublic : d.exists_ k.publicFile = true
    · simp [isPrivate, isPublic, Rule.marks]
    · simp [isPrivate, isPublic, Rule.marks, Finding.mark, Rule.severity]
  · by_cases isPublic : d.exists_ k.publicFile = true
    · simp [isPrivate, isPublic, Rule.marks, Finding.mark, Rule.severity]
    · simp [isPrivate, isPublic, Rule.marks, Finding.mark, Rule.severity]

theorem fileFindings_marks (inv : Inventory) (now : Instant) (active : k.status = .active) :
    (fileFindings p k).map Finding.mark =
      owed inv p now k .missingKeyFile ++ owed inv p now k .insecurePermissions := by
  rw [owed_of_ne (by decide), owed_of_ne (by decide)]
  unfold fileFindings keyBreaches
  cases p.files with
  | none => rfl
  | some d =>
    simp only [active, true_and, ↓reduceIte, List.map_append, missingFileFindings_marks, marks_once]
    congr 1
    unfold permissionFindings
    cases d.mode k.privateFile with
    | error e => simp [Except.toOption]
    | ok mode =>
      by_cases open_ : mode % 0o100 ≠ 0
      · simp [Except.toOption, open_, Finding.mark, Rule.severity]
      · simp [Except.toOption, open_]

/-- The rules on keys that are in use no more, in the order of the audit. -/
def deployedRules : List Rule := [.revokedKeyDeployed, .rotatedKeyDeployed]

/-- The rules on keys in use, in the order of the audit. -/
def activeRules : List Rule :=
  [.keyExpired, .keyExpiring, .noExpiry, .keyTooOld, .weakAlgorithm, .weakKeySize, .unusedKey,
    .missingKeyFile, .insecurePermissions]

/-- The rules on hosts, in the order of the audit. -/
def hostRules : List Rule := [.hostUnreachable, .hostWithoutIdentity, .revokedIdentity]

/-- Marks may be made in any order of the rules, and by those alone that are broken. -/
theorem marksOn_perm {front back : List Rule} (whole : (front ++ back).Perm Rule.all) {times : Rule → Nat}
    (none : ∀ r ∈ back, times r = 0) (subject : String) :
    (front.flatMap fun r => r.marks subject (times r)).Perm (marksOn subject times) := by
  have nothing : (back.flatMap fun r => r.marks subject (times r)) = [] := by
    refine List.flatMap_eq_nil_iff.mpr ?_
    intro r member
    rw [none r member]
    rfl
  have all := whole.flatMap_right fun r => r.marks subject (times r)
  rwa [List.flatMap_append, nothing, List.append_nil] at all

/-- A key that is in use no more breaks the rules on deployments at most. -/
theorem keyBreaches_of_retired (retired : k.status ≠ .active) {r : Rule} (member : r ∈ activeRules) :
    keyBreaches inv p now k r = 0 := by
  cases r with
  | revokedKeyDeployed => exact absurd member (by decide)
  | rotatedKeyDeployed => exact absurd member (by decide)
  | missingKeyFile =>
    unfold keyBreaches
    cases p.files with
    | none => rfl
    | some d => simp [retired]
  | insecurePermissions =>
    unfold keyBreaches
    cases p.files with
    | none => rfl
    | some d => simp [once, retired]
  | _ => simp [keyBreaches, once, retired]

theorem activeFindings_marks (active : k.status = .active) :
    ((expiryFindings p now k ++ ageFindings p now k ++ strengthFindings p k ++ unusedFindings inv k
      ++ fileFindings p k).map Finding.mark) = activeRules.flatMap (owed inv p now k) := by
  simp only [List.map_append, expiryFindings_marks inv active, ageFindings_marks inv active,
    strengthFindings_marks inv now active, unusedFindings_marks p now active, fileFindings_marks inv now active]
  simp [activeRules]

theorem keyFindings_marks (inv : Inventory) (p : Policy) (now : Instant) (k : Key) :
    ((keyFindings inv p now k).map Finding.mark).Perm (marksOn k.name (reported (keyBreaches inv p now k))) := by
  have order : ((deployedRules ++ activeRules) ++ (hostRules ++ [Rule.inventoryInconsistent])).Perm Rule.all := by
    decide
  refine List.Perm.trans (List.Perm.of_eq ?_) (marksOn_perm order ?_ k.name)
  · show _ = (deployedRules ++ activeRules).flatMap (owed inv p now k)
    have deployed : deployedRules.flatMap (owed inv p now k) =
        owed inv p now k .revokedKeyDeployed ++ owed inv p now k .rotatedKeyDeployed := by
      simp [deployedRules]
    rw [keyFindings, List.map_append, deployedFindings_marks inv p now k, List.flatMap_append, deployed]
    congr 1
    by_cases active : k.status = .active
    · have isActive : k.isActive = true := by simpa [Key.isActive] using active
      rw [if_pos isActive]
      exact activeFindings_marks active
    · have retired : ¬ k.isActive = true := by simpa [Key.isActive] using active
      rw [if_neg retired]
      refine (List.flatMap_eq_nil_iff.mpr fun r member => ?_).symm
      have none : keyBreaches inv p now k r = 0 := keyBreaches_of_retired active member
      simp [owed, reported, none, Rule.marks]
  · simp [hostRules, reported, keyBreaches]

/-- The identity of a host is looked up once: it has none, none that is there, or a key. -/
theorem hostFindings_marks (inv : Inventory) (h : Host) :
    ((hostFindings inv h).map Finding.mark).Perm (marksOn h.label (hostBreaches inv h)) := by
  have order : (hostRules ++ (deployedRules ++ activeRules ++ [Rule.inventoryInconsistent])).Perm Rule.all := by
    decide
  refine List.Perm.trans (List.Perm.of_eq ?_) (marksOn_perm order ?_ h.label)
  · unfold hostFindings hostRules
    simp only [List.flatMap_cons, List.flatMap_nil, List.append_nil, hostBreaches, marks_once, List.map_append]
    congr 1
    · unfold reachFindings
      split
      · rfl
      · rfl
    · unfold identityFindings Inventory.identityOf?
      cases h.identity with
      | none => simp [Finding.mark, Rule.severity]
      | some name =>
        cases found : inv.findKey? name with
        | none => simp [found]
        | some k =>
          by_cases active : k.status = .active
          · simp [found, Key.isActive, active]
          · simp [found, Key.isActive, active, Finding.mark, Rule.severity]
  · simp [deployedRules, activeRules, hostBreaches]

/-! ## The report -/

theorem findings_marks (inv : Inventory) (p : Policy) (now : Instant) :
    ((findings inv p now).map Finding.mark).Perm
      (expected inv fun k => reported (keyBreaches inv p now k)) := by
  unfold findings expected
  rw [List.map_append, List.map_append, List.map_flatMap, List.map_flatMap]
  refine List.Perm.append (List.Perm.append (List.Perm.of_eq ?_) ?_) ?_
  · rw [List.map_map, Rule.marks, ← List.map_const']
    rfl
  · exact List.Perm.flatMap_left _ fun k _ => keyFindings_marks inv p now k
  · exact List.Perm.flatMap_left _ fun h _ => hostFindings_marks inv h

/-- The order of a report: the worse finding first, then the one on the earlier subject, then the
one by the rule of the earlier name. -/
def Finding.Before (a b : Finding) : Prop :=
  b.severity.rank < a.severity.rank ∨ a.severity = b.severity ∧
    (a.subject < b.subject ∨ a.subject = b.subject ∧ a.rule.name ≤ b.rule.name)

theorem Severity.rank_inj {a b : Severity} (same : a.rank = b.rank) : a = b := by
  cases a <;> cases b <;> first | rfl | cases same

theorem precedes_iff {a b : Finding} : a.precedes b = true ↔ a.Before b := by
  unfold Finding.precedes Finding.Before
  by_cases severity : a.severity = b.severity
  · by_cases subject : a.subject = b.subject
    · simp [severity, subject]
    · simp [severity, subject]
  · have ranks : a.severity.rank ≠ b.severity.rank := fun same => severity (Severity.rank_inj same)
    simp [severity, ranks]

theorem Finding.Before.trans {a b c : Finding} (first : a.Before b) (second : b.Before c) : a.Before c := by
  rcases first with worse | ⟨same, first⟩
  · rcases second with worse' | ⟨same', -⟩
    · exact .inl (Nat.lt_trans worse' worse)
    · exact .inl (same' ▸ worse)
  rcases second with worse' | ⟨same', second⟩
  · exact .inl (same ▸ worse')
  refine .inr ⟨same.trans same', ?_⟩
  rcases first with earlier | ⟨sameSubject, rule⟩
  · rcases second with earlier' | ⟨sameSubject', -⟩
    · exact .inl (String.lt_trans earlier earlier')
    · exact .inl (sameSubject' ▸ earlier)
  · rcases second with earlier' | ⟨sameSubject', rule'⟩
    · exact .inl (sameSubject ▸ earlier')
    · exact .inr ⟨sameSubject.trans sameSubject', String.le_trans rule rule'⟩

theorem Finding.Before.total (a b : Finding) : a.Before b ∨ b.Before a := by
  rcases Nat.lt_trichotomy b.severity.rank a.severity.rank with worse | same | better
  · exact .inl (.inl worse)
  · have severity := Severity.rank_inj same
    rcases lt_trichotomy a.subject b.subject with earlier | subject | later
    · exact .inl (.inr ⟨severity.symm, .inl earlier⟩)
    · rcases le_total a.rule.name b.rule.name with rule | rule
      · exact .inl (.inr ⟨severity.symm, .inr ⟨subject, rule⟩⟩)
      · exact .inr (.inr ⟨severity, .inr ⟨subject.symm, rule⟩⟩)
    · exact .inr (.inr ⟨severity, .inl later⟩)
  · exact .inr (.inl better)

theorem Finding.precedes_trans (a b c : Finding) (first : a.precedes b = true) (second : b.precedes c = true) :
    a.precedes c = true :=
  precedes_iff.mpr ((precedes_iff.mp first).trans (precedes_iff.mp second))

theorem Finding.precedes_total (a b : Finding) : (a.precedes b || b.precedes a) = true := by
  rw [Bool.or_eq_true, precedes_iff, precedes_iff]
  exact Finding.Before.total a b

theorem report_pairwise (inv : Inventory) (p : Policy) (now : Instant) :
    (report inv p now).findings.Pairwise Finding.Before :=
  (List.pairwise_mergeSort Finding.precedes_trans Finding.precedes_total (findings inv p now)).imp precedes_iff.mp

theorem of_mem_marksOn {m : Mark} {subject : String} {times : Rule → Nat} (member : m ∈ marksOn subject times) :
    times m.rule ≠ 0 := by
  obtain ⟨r, -, marked⟩ := List.mem_flatMap.mp member
  obtain ⟨some, rfl⟩ := List.mem_replicate.mp marked
  exact some

/-- Where a rule is not broken, none of the findings is by it. -/
theorem filter_rule_eq_nil {found : List Finding} {subject : String} {times : Rule → Nat} {r : Rule}
    (marks : (found.map Finding.mark).Perm (marksOn subject times)) (unbroken : times r = 0) :
    found.filter (·.rule = r) = [] := by
  refine List.filter_eq_nil_iff.mpr fun f member is => ?_
  have broken := of_mem_marksOn (marks.mem_iff.mp (List.mem_map_of_mem member))
  rw [Finding.mark, of_decide_eq_true is] at broken
  exact broken unbroken

theorem filter_findings (inv : Inventory) (p : Policy) (now : Instant) :
    (findings inv p now).filter (·.rule = .inventoryInconsistent) =
      inv.check.map fun problem => ⟨.critical, .inventoryInconsistent, "inventory", problem⟩ := by
  have keys : (inv.keys.flatMap (keyFindings inv p now)).filter (·.rule = .inventoryInconsistent) = [] := by
    rw [List.filter_flatMap, List.flatMap_eq_nil_iff]
    exact fun k _ => filter_rule_eq_nil (keyFindings_marks inv p now k) rfl
  have hosts : (inv.hosts.flatMap (hostFindings inv)).filter (·.rule = .inventoryInconsistent) = [] := by
    rw [List.filter_flatMap, List.flatMap_eq_nil_iff]
    exact fun h _ => filter_rule_eq_nil (hostFindings_marks inv h) rfl
  rw [findings, List.filter_append, List.filter_append, keys, hosts, List.append_nil, List.append_nil]
  refine List.filter_eq_self.mpr fun f member => ?_
  obtain ⟨problem, -, rfl⟩ := List.mem_map.mp member
  rfl

theorem report_problems (inv : Inventory) (p : Policy) (now : Instant) :
    (((report inv p now).byRule .inventoryInconsistent).map (·.message)).Perm inv.check := by
  have found := ((List.mergeSort_perm (findings inv p now) Finding.precedes).filter
    (·.rule = .inventoryInconsistent)).map (·.message)
  rw [filter_findings, List.map_map] at found
  exact found.trans (List.Perm.of_eq (List.map_id _))

theorem hasCritical_iff {r : Report} : r.hasCritical = true ↔ ∃ f ∈ r.findings, f.severity = .critical := by
  simp [Report.hasCritical, Report.count, List.countP_pos_iff]

/-- An audit reports the problems of the inventory and, for each key and each host, each rule of the
table so often as it is broken, save the size of an RSA key whose algorithm is weak for it; nothing
else. Worse findings come first, then those on earlier subjects, then those by earlier rules. The
summary counts them by severity. -/
theorem report_marks (inv : Inventory) (p : Policy) (now : Instant) :
    ((report inv p now).findings.map Finding.mark).Perm
        (expected inv fun k => reported (keyBreaches inv p now k)) ∧
      (((report inv p now).byRule .inventoryInconsistent).map (·.message)).Perm inv.check ∧
      (report inv p now).findings.Pairwise Finding.Before ∧
      (∀ s, (report inv p now).count s =
        (expected inv fun k => reported (keyBreaches inv p now k)).countP (·.severity = s)) ∧
      ((report inv p now).hasCritical = true ↔ ∃ f ∈ (report inv p now).findings, f.severity = .critical) := by
  have marks : ((report inv p now).findings.map Finding.mark).Perm
      (expected inv fun k => reported (keyBreaches inv p now k)) :=
    ((List.mergeSort_perm _ _).map _).trans (findings_marks inv p now)
  refine ⟨marks, report_problems inv p now, report_pairwise inv p now, fun s => ?_, hasCritical_iff⟩
  rw [← marks.countP_eq, List.countP_map]
  rfl

/-- One RSA key of 1024 bits on record. -/
def shortKeyInventory : Inventory where
  version := 1
  keys := [{
    name := "old", algorithm := .rsa, bits := some 1024, comment := "", fingerprint := "SHA256:old",
    privateFile := "vault/keys/old", publicFile := "vault/keys/old.pub", publicLine := "ssh-rsa AAAA",
    createdAt := ⟨0, 0⟩, expiresAt := none, status := .active, rotatedFrom := none, rotatedTo := none,
    managed := true, tags := [] }]
  hosts := []
  deployments := []

/-- Both rules on weak keys hold of that key, and only one is reported. -/
theorem short_key_reported_once :
    let p : Policy := ⟨14, 365, 3072, none⟩
    let breaches := keyBreaches shortKeyInventory p ⟨0, 0⟩
    ¬ ((report shortKeyInventory p ⟨0, 0⟩).findings.map Finding.mark).Perm (expected shortKeyInventory breaches) := by
  intro p breaches same
  have fewer : (findings shortKeyInventory p ⟨0, 0⟩).length ≠ (expected shortKeyInventory breaches).length := by
    decide +kernel
  have lengths := same.length_eq
  rw [List.length_map, report, List.length_mergeSort] at lengths
  exact fewer lengths

end Keyring.Audit

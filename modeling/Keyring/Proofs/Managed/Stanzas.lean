import Keyring.Managed.Block
import Keyring.Proofs.Inventory.HostSteps
import Keyring.Proofs.Inventory.Integrity
import Keyring.Proofs.Lifecycle.Safety
import Keyring.Proofs.Text.Lines
import Keyring.Proofs.Text.Numeral
import Keyring.Proofs.Text.Words
import Mathlib.Data.List.Forall2
import Mathlib.Data.String.Basic

/-!
# One stanza for each host

The block of an inventory is read line by line. In every run it is read as one stanza for
each host, in the order of their aliases, just where no value that is written there holds
a line feed.
-/

namespace Keyring.Managed

open Inventory Text

variable {inv : Inventory} {h : Host}

/-- Texts that are written a line each are read as these lines where none holds a line feed. -/
theorem lines_flatMap_lineOf {ss : List String} (feedless : ∀ s ∈ ss, '\n' ∉ s.toList) :
    lines (ss.flatMap lineOf) = ss.map lineOf := by
  induction ss with
  | nil => rfl
  | cons s rest ih =>
    obtain ⟨first, others⟩ := List.forall_mem_cons.mp feedless
    have closed : IsClosed (lineOf s) := .inr (endsLine_append (a := s.toList) rfl)
    rw [List.flatMap_cons, lines_append closed, ih others, List.map_cons]
    exact congrArg (· ++ rest.map lineOf) (lines_feedless first)

theorem flatMap_intercalate {α β : Type} (f : α → List β) (sep : List α) (xs : List (List α)) :
    (sep.intercalate xs).flatMap f = (sep.flatMap f).intercalate (xs.map (·.flatMap f)) := by
  induction xs with
  | nil => rfl
  | cons x rest ih =>
    cases rest with
    | nil => simp [List.intercalate_singleton]
    | cons y more =>
      rw [List.intercalate_cons_cons, List.map_cons, List.map_cons, List.intercalate_cons_cons,
        List.flatMap_append, List.flatMap_append, ih, List.map_cons]

/-- What is kept of texts with a separator between them that is not kept. -/
theorem filter_intercalate {α : Type} {keep : α → Bool} {sep : List α} (dropped : sep.filter keep = [])
    (xs : List (List α)) : (sep.intercalate xs).filter keep = xs.flatMap (·.filter keep) := by
  induction xs with
  | nil => rfl
  | cons x rest ih =>
    cases rest with
    | nil => simp [List.intercalate_singleton]
    | cons y more =>
      rw [List.intercalate_cons_cons, List.filter_append, List.filter_append, dropped, ih, List.append_nil]
      rfl

theorem mem_intercalate {α : Type} {a : α} {sep : List α} {xs : List (List α)} (inside : a ∈ sep.intercalate xs) :
    a ∈ sep ∨ ∃ x ∈ xs, a ∈ x := by
  induction xs with
  | nil => cases inside
  | cons x rest ih =>
    cases rest with
    | nil => exact .inr ⟨x, List.mem_singleton_self x, by rwa [List.intercalate_singleton] at inside⟩
    | cons y more =>
      rw [List.intercalate_cons_cons, List.mem_append, List.mem_append] at inside
      rcases inside with (first | separates) | later
      · exact .inr ⟨x, List.mem_cons_self, first⟩
      · exact .inl separates
      · rcases ih later with separates | ⟨z, known, inside⟩
        · exact .inl separates
        · exact .inr ⟨z, List.mem_cons_of_mem _ known, inside⟩

theorem mem_intercalate_of_mem {α : Type} {a : α} (sep : List α) {x : List α} {xs : List (List α)} (known : x ∈ xs)
    (inside : a ∈ x) : a ∈ sep.intercalate xs := by
  induction xs with
  | nil => cases known
  | cons y rest ih =>
    cases rest with
    | nil =>
      obtain rfl := List.mem_singleton.mp known
      rwa [List.intercalate_singleton]
    | cons z more =>
      rw [List.intercalate_cons_cons, List.mem_append]
      rcases List.mem_cons.mp known with rfl | later
      · exact .inl (List.mem_append_left _ inside)
      · exact .inr (ih later)

/-- The lines of the block, before they are put together. -/
def blockLines (inv : Inventory) : List String :=
  beginMarker :: ([""].intercalate ((hostsByAlias inv).map (stanza inv)) ++ [endMarker])

theorem block_eq_flatMap (inv : Inventory) : block inv = (blockLines inv).flatMap lineOf := by
  have feed : [""].flatMap lineOf = ['\n'] := rfl
  rw [blockLines, List.flatMap_cons, List.flatMap_append, flatMap_intercalate, feed, List.map_map, block,
    stanzas, List.append_assoc]
  rfl

/-- The key that a host is logged in to with is on record and not revoked. -/
def LogsInWith (inv : Inventory) (h : Host) (k : Key) : Prop :=
  ∃ name, h.identity = some name ∧ inv.findKey? name = some k ∧ k.status ≠ .revoked

/-- The lines of a host: its alias, its machine and its user, the port if it is not the usual one, and
the key that it is logged in to with, if there is one. -/
def IsStanza (inv : Inventory) (h : Host) (ls : List String) : Prop :=
  ∃ port key, ls = ["Host " ++ h.label, "    HostName " ++ h.hostname, "    User " ++ h.user] ++ port ++ key ∧
    (h.port = 22 ∧ port = [] ∨ h.port ≠ 22 ∧ port = ["    Port " ++ toString h.port]) ∧
    ((∃ k, LogsInWith inv h k ∧ key = ["    IdentityFile " ++ quotedValue k.privateFile, "    IdentitiesOnly yes"]) ∨
      (∀ k, ¬ LogsInWith inv h k) ∧ key = [])

theorem usableIdentity?_eq_some_iff {k : Key} : usableIdentity? inv h = some k ↔ LogsInWith inv h k := by
  unfold usableIdentity? identityOf? LogsInWith
  rw [Option.filter_eq_some_iff, Option.bind_eq_some_iff]
  constructor
  · rintro ⟨⟨name, is, found⟩, usable⟩
    exact ⟨name, is, found, by simpa using usable⟩
  · rintro ⟨name, is, found, usable⟩
    exact ⟨⟨name, is, found⟩, by simpa using usable⟩

def portLines (h : Host) : List String :=
  if h.port ≠ Host.defaultPort then ["    Port " ++ toString h.port] else []

def keyLines (inv : Inventory) (h : Host) : List String :=
  match usableIdentity? inv h with
  | some k => ["    IdentityFile " ++ quotedValue k.privateFile, "    IdentitiesOnly yes"]
  | none => []

theorem stanza_eq (inv : Inventory) (h : Host) : stanza inv h =
    ["Host " ++ h.label, "    HostName " ++ h.hostname, "    User " ++ h.user] ++ portLines h ++ keyLines inv h :=
  rfl

theorem eq_portLines_iff {ls : List String} : ls = portLines h ↔
    h.port = 22 ∧ ls = [] ∨ h.port ≠ 22 ∧ ls = ["    Port " ++ toString h.port] := by
  unfold portLines Host.defaultPort
  by_cases usual : h.port = 22 <;> simp [usual]

theorem eq_keyLines_iff {ls : List String} : ls = keyLines inv h ↔
    (∃ k, LogsInWith inv h k ∧ ls = ["    IdentityFile " ++ quotedValue k.privateFile, "    IdentitiesOnly yes"]) ∨
      (∀ k, ¬ LogsInWith inv h k) ∧ ls = [] := by
  simp only [← usableIdentity?_eq_some_iff]
  unfold keyLines
  cases usableIdentity? inv h <;> simp

theorem isStanza_iff {ls : List String} : IsStanza inv h ls ↔ ls = stanza inv h := by
  rw [stanza_eq]
  constructor
  · rintro ⟨port, key, rfl, isPort, isKey⟩
    rw [eq_portLines_iff.mpr isPort, eq_keyLines_iff.mpr isKey]
  · rintro rfl
    exact ⟨_, _, rfl, eq_portLines_iff.mp rfl, eq_keyLines_iff.mp rfl⟩

/-- No value that is written of a host holds a line feed. -/
structure IsFeedless (inv : Inventory) (h : Host) : Prop where
  hostname : '\n' ∉ h.hostname.toList
  user : '\n' ∉ h.user.toList
  privateFile : ∀ k, LogsInWith inv h k → '\n' ∉ k.privateFile.toList

theorem feedless_append {lead : String} (feedless : '\n' ∉ lead.toList) (s : String) :
    '\n' ∉ (lead ++ s).toList ↔ '\n' ∉ s.toList := by
  rw [String.toList_append, List.mem_append, not_or]
  exact and_iff_right feedless

theorem feedless_quotedValue (s : String) : '\n' ∉ (quotedValue s).toList ↔ '\n' ∉ s.toList := by
  unfold quotedValue
  split
  · simp
  · rfl

theorem feedless_portLines (h : Host) : ∀ s ∈ portLines h, '\n' ∉ s.toList := by
  intro s inside
  unfold portLines at inside
  split at inside
  · obtain rfl := List.mem_singleton.mp inside
    rw [feedless_append (by decide), toList_toString]
    intro feed
    exact absurd (isDigit_of_mem_decimal feed) (by decide)
  · cases inside

theorem feedless_keyLines_iff : (∀ s ∈ keyLines inv h, '\n' ∉ s.toList) ↔
    ∀ k, LogsInWith inv h k → '\n' ∉ k.privateFile.toList := by
  simp only [← usableIdentity?_eq_some_iff]
  unfold keyLines
  cases usableIdentity? inv h with
  | none => simp
  | some k =>
    have file : '\n' ∉ ("    IdentityFile " ++ quotedValue k.privateFile).toList ↔ '\n' ∉ k.privateFile.toList := by
      rw [feedless_append (by decide), feedless_quotedValue]
    have only : '\n' ∉ "    IdentitiesOnly yes".toList := by decide
    simp only [List.forall_mem_cons, file, only, List.not_mem_nil, Option.some.injEq, forall_eq']
    simp

/-- Under an alias without a line feed, the lines of a stanza hold none just where no value does. -/
theorem feedless_stanza_iff (label : '\n' ∉ h.label.toList) :
    (∀ s ∈ stanza inv h, '\n' ∉ s.toList) ↔ IsFeedless inv h := by
  rw [stanza_eq, List.forall_mem_append, List.forall_mem_append, feedless_keyLines_iff,
    and_iff_left (feedless_portLines h)]
  rw [List.forall_mem_cons, List.forall_mem_cons, List.forall_mem_singleton, feedless_append (by decide),
    feedless_append (by decide), feedless_append (by decide)]
  constructor
  · rintro ⟨⟨-, hostname, user⟩, privateFile⟩
    exact ⟨hostname, user, privateFile⟩
  · rintro ⟨hostname, user, privateFile⟩
    exact ⟨⟨label, hostname, user⟩, privateFile⟩

/-- Where no value of a host holds a line feed, the block is read line by line as it was written. -/
theorem lines_block (labels : ∀ h ∈ inv.hosts, '\n' ∉ h.label.toList)
    (feedless : ∀ h ∈ inv.hosts, IsFeedless inv h) : lines (block inv) = (blockLines inv).map lineOf := by
  rw [block_eq_flatMap]
  refine lines_flatMap_lineOf fun s inside => ?_
  rcases List.mem_cons.mp inside with rfl | inside
  · decide
  rcases List.mem_append.mp inside with inside | last
  · rcases mem_intercalate inside with between | ⟨ls, known, inside⟩
    · obtain rfl := List.mem_singleton.mp between
      decide
    · obtain ⟨h, listed, rfl⟩ := List.mem_map.mp known
      have there : h ∈ inv.hosts := List.mem_mergeSort.mp listed
      exact (feedless_stanza_iff (labels h there)).mpr (feedless h there) s inside
  · obtain rfl := List.mem_singleton.mp last
    decide

/-- The first word of a line is `Host`. -/
def declaresHost (line : List Char) : Bool := (words line).head? = some "Host".toList

/-- A word and a blank at the start of a line decide what it declares. -/
theorem declaresHost_lineOf {lead : String} (front : List Char) (spelled : lead.toList = front ++ [' '])
    (some_ : words front ≠ []) (s : String) : declaresHost (lineOf (lead ++ s)) = declaresHost front := by
  have whole : lineOf (lead ++ s) = front ++ ' ' :: (s.toList ++ ['\n']) := by
    rw [lineOf, String.toList_append, spelled]
    simp only [List.append_assoc, List.cons_append, List.nil_append]
  unfold declaresHost
  rw [whole, words_append_blank (by decide), List.head?_append_of_ne_nil _ some_]

theorem filter_stanza (inv : Inventory) (h : Host) :
    (stanza inv h).filter (fun s => declaresHost (lineOf s)) = ["Host " ++ h.label] := by
  have first : declaresHost (lineOf ("Host " ++ h.label)) = true :=
    declaresHost_lineOf "Host".toList rfl (by decide) _
  have hostname : declaresHost (lineOf ("    HostName " ++ h.hostname)) = false :=
    declaresHost_lineOf "    HostName".toList rfl (by decide) _
  have user : declaresHost (lineOf ("    User " ++ h.user)) = false :=
    declaresHost_lineOf "    User".toList rfl (by decide) _
  have port : (portLines h).filter (fun s => declaresHost (lineOf s)) = [] := by
    have other : declaresHost (lineOf ("    Port " ++ toString h.port)) = false :=
      declaresHost_lineOf "    Port".toList rfl (by decide) _
    unfold portLines
    split
    · exact List.filter_cons_of_neg (ne_true_of_eq_false other)
    · rfl
  have key : (keyLines inv h).filter (fun s => declaresHost (lineOf s)) = [] := by
    unfold keyLines
    cases usableIdentity? inv h with
    | none => rfl
    | some k =>
      have file : declaresHost (lineOf ("    IdentityFile " ++ quotedValue k.privateFile)) = false :=
        declaresHost_lineOf "    IdentityFile".toList rfl (by decide) _
      have only : declaresHost (lineOf "    IdentitiesOnly yes") = false := by decide
      simp [file, only]
  rw [stanza_eq, List.filter_append, List.filter_append, port, key]
  simp [first, hostname, user]

theorem filter_blockLines (inv : Inventory) :
    (blockLines inv).filter (fun s => declaresHost (lineOf s)) =
      (hostsByAlias inv).map fun h => "Host " ++ h.label := by
  have begin_ (rest : List String) : (beginMarker :: rest).filter (fun s => declaresHost (lineOf s)) =
      rest.filter (fun s => declaresHost (lineOf s)) := List.filter_cons_of_neg (by decide)
  have end_ : [endMarker].filter (fun s => declaresHost (lineOf s)) = [] := by decide
  have between : [""].filter (fun s => declaresHost (lineOf s)) = [] := by decide
  rw [blockLines, begin_, List.filter_append, filter_intercalate between, end_,
    List.append_nil, List.flatMap_map]
  simp only [filter_stanza]
  exact List.map_eq_flatMap.symm

theorem perm_hostsByAlias (inv : Inventory) : (hostsByAlias inv).Perm inv.hosts := List.mergeSort_perm _ _

/-- Items of distinct names that are sorted by their names are in strict order. -/
theorem pairwise_mergeSort_of_distinct {α : Type} {name : α → String} {items : List α}
    (distinct : (items.map name).Nodup) :
    (items.mergeSort fun a b => decide (name a ≤ name b)).Pairwise fun a b => name a < name b := by
  have transitive : ∀ a b c, decide (name a ≤ name b) = true → decide (name b ≤ name c) = true →
      decide (name a ≤ name c) = true := by
    intro a b c first second
    simp only [decide_eq_true_eq] at first second ⊢
    exact le_trans first second
  have total : ∀ a b, (decide (name a ≤ name b) || decide (name b ≤ name a)) = true := by
    intro a b
    simpa using le_total (name a) (name b)
  have ordered := List.pairwise_mergeSort transitive total items
  have apart : (items.mergeSort fun a b => decide (name a ≤ name b)).Pairwise fun a b => name a ≠ name b :=
    List.pairwise_map.mp (((List.mergeSort_perm _ _).map name).nodup_iff.mpr distinct)
  refine (ordered.and apart).imp ?_
  intro a b both
  exact lt_of_le_of_ne (by simpa using both.1) both.2

theorem pairwise_hostsByAlias (distinct : inv.hostLabels.Nodup) :
    (hostsByAlias inv).Pairwise fun a b => a.label < b.label := pairwise_mergeSort_of_distinct distinct

/-- A text is read as the stanzas of hosts one after the other, with an empty line between two of them,
between the marker lines; the lines that declare a host declare these, one each. -/
structure ReadsAs (inv : Inventory) (hosts : List Host) (text : List Char) : Prop where
  stanzas : ∃ ss, List.Forall₂ (IsStanza inv) hosts ss ∧
    lines text = (beginMarker :: ([""].intercalate ss ++ [endMarker])).map lineOf
  declared : (lines text).filter declaresHost = hosts.map fun h => lineOf ("Host " ++ h.label)

theorem readsAs_of_feedless (labels : ∀ h ∈ inv.hosts, '\n' ∉ h.label.toList)
    (feedless : ∀ h ∈ inv.hosts, IsFeedless inv h) : ReadsAs inv (hostsByAlias inv) (block inv) where
  stanzas := by
    refine ⟨(hostsByAlias inv).map (stanza inv), ?_, lines_block labels feedless⟩
    rw [List.forall₂_map_right_iff]
    exact List.forall₂_same.mpr fun h _ => isStanza_iff.mpr rfl
  declared := by
    have declared := filter_blockLines inv
    rw [lines_block labels feedless, List.filter_map]
    show ((blockLines inv).filter (fun s => declaresHost (lineOf s))).map lineOf = _
    rw [declared, List.map_map]
    rfl

/-- What is read as a stanza has a line feed at the ends of its lines only. -/
theorem ReadsAs.isFeedless {hosts : List Host} {text : List Char} (reads : ReadsAs inv hosts text)
    (inside : h ∈ hosts) (label : '\n' ∉ h.label.toList) : IsFeedless inv h := by
  obtain ⟨ss, each, read⟩ := reads.stanzas
  refine (feedless_stanza_iff label).mp fun s here => ?_
  have known : stanza inv h ∈ ss := by
    clear read reads
    induction each with
    | nil => cases inside
    | cons is rest ih =>
      rcases List.mem_cons.mp inside with rfl | later
      · rw [isStanza_iff.mp is]
        exact List.mem_cons_self
      · exact List.mem_cons_of_mem _ (ih later)
  have line : lineOf s ∈ lines text := by
    rw [read]
    refine List.mem_map_of_mem (List.mem_cons_of_mem _ (List.mem_append_left _ ?_))
    exact mem_intercalate_of_mem [""] known here
  exact feedless_of_mem_lines line

/-- In every run the block is read as one stanza for each host, in strictly ascending order of their
aliases, just where no value that is written of a host holds a line feed. -/
theorem block_readsAs_iff (run : Reaches .empty inv) :
    (∃ hosts : List Host, hosts.Perm inv.hosts ∧ (hosts.Pairwise fun a b => a.label < b.label) ∧
      ReadsAs inv hosts (block inv)) ↔ ∀ h ∈ inv.hosts, IsFeedless inv h := by
  have sound := run.consistent (check_eq_nil_iff.mp rfl)
  have labels : ∀ h ∈ inv.hosts, '\n' ∉ h.label.toList := by
    intro h inside
    have isName := run.isName_label h.label (List.mem_map_of_mem inside)
    intro feed
    exact absurd ((Name.isName_iff.mp isName).2.1 '\n' feed) (by decide)
  constructor
  · rintro ⟨hosts, same, -, reads⟩ h inside
    exact reads.isFeedless (same.mem_iff.mpr inside) (labels h inside)
  · intro feedless
    exact ⟨hostsByAlias inv, perm_hostsByAlias inv, pairwise_hostsByAlias sound.hostsDistinct,
      readsAs_of_feedless labels feedless⟩

/-- A fresh world in which a host has been added whose machine goes on for two more lines. -/
def spillingWorld : World :=
  (Request.addHost ⟨"web", "example.org\nHost *\n    ProxyCommand sh", some "root", none, none, []⟩ none
    ⟨0, 0⟩).after "vault" Request.freshWorld

/-- There the block declares every host, and is not read as the one stanza. -/
theorem block_readsAs_iff_of_spillingWorld : Reaches .empty spillingWorld.inventory ∧
    (lines (block spillingWorld.inventory)).filter declaresHost = [lineOf "Host web", lineOf "Host *"] ∧
      ¬∃ hosts : List Host, hosts.Perm spillingWorld.inventory.hosts ∧
        (hosts.Pairwise fun a b => a.label < b.label) ∧
          ReadsAs spillingWorld.inventory hosts (block spillingWorld.inventory) := by
  have run : Reaches .empty spillingWorld.inventory :=
    .step (w := Request.freshWorld) "vault" _ .start
  have spills : ∃ h ∈ spillingWorld.inventory.hosts, '\n' ∈ h.hostname.toList := by decide +kernel
  refine ⟨run, by decide +kernel, fun reads => ?_⟩
  obtain ⟨h, inside, feed⟩ := spills
  exact ((block_readsAs_iff run).mp reads h inside).hostname feed

end Keyring.Managed

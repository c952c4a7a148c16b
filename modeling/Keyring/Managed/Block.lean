import Keyring.Inventory.Basic
import Keyring.Managed.Section

/-!
# The block of an inventory

The text between the markers: how to reach each host of the inventory. A host
that the user declares as well is reported as a conflict.
-/

namespace Keyring.Managed

open Text

/-- A value in quotes if it holds a blank. -/
def quotedValue (s : String) : String := if s.toList.any isBlank then "\"" ++ s ++ "\"" else s

/-- The key a host is logged in to with, unless it is revoked. -/
def usableIdentity? (inv : Inventory) (h : Host) : Option Key :=
  (inv.identityOf? h).filter (·.status ≠ .revoked)

def stanza (inv : Inventory) (h : Host) : List String :=
  ["Host " ++ h.label, "    HostName " ++ h.hostname, "    User " ++ h.user]
  ++ (if h.port ≠ Host.defaultPort then [s!"    Port {h.port}"] else [])
  ++ match usableIdentity? inv h with
    | some k => ["    IdentityFile " ++ quotedValue k.privateFile, "    IdentitiesOnly yes"]
    | none => []

/-- The hosts in order of their aliases; equal ones stay in place. -/
def hostsByAlias (inv : Inventory) : List Host :=
  inv.hosts.mergeSort fun a b => decide (a.label ≤ b.label)

def lineOf (s : String) : List Char := s.toList ++ ['\n']

/-- The stanzas, with an empty line between two of them. -/
def stanzas (inv : Inventory) : List Char :=
  ['\n'].intercalate ((hostsByAlias inv).map fun h => (stanza inv h).flatMap lineOf)

/-- The whole block between its marker lines. -/
def block (inv : Inventory) : List Char :=
  lineOf beginMarker ++ stanzas inv ++ lineOf endMarker

/-- Sets a keyword off from its value. -/
def endsKeyword (c : Char) : Bool := isBlank c || c = '='

def isHostKeyword (cs : List Char) : Bool := cs.map Char.toLower = "host".toList

/-- A word without quotes at its ends. -/
def unquoted (cs : List Char) : List Char :=
  ((cs.dropWhile (· = '"')).reverse.dropWhile (· = '"')).reverse

/-- The patterns of a line that declares hosts. -/
def patternsOf (line : List Char) : List String :=
  match cut endsKeyword (trim line) with
  | some (keyword, rest) =>
    if isHostKeyword keyword then (words rest).map fun w => String.ofList (unquoted w) else []
  | none => []

/-- The hosts of the inventory that the rest of the text declares too, each once and in order. -/
def conflicts (text : List Char) (inv : Inventory) : Except Error (List String) := do
  let rest ← strip text
  let declared := (lines rest).flatMap patternsOf
  let known := declared.filter fun p => (inv.findHost? p).isSome
  return known.eraseDups.mergeSort fun a b => decide (a ≤ b)

end Keyring.Managed

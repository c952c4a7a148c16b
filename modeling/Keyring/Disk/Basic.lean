import Keyring.Error
import Keyring.Path
import Keyring.Text.Utf8
import Keyring.Time.Instant

/-!
# Disks

Files, directories and symbolic links by their places. A place is the row of
names that leads to it from the root; a path is followed to a place, through
links and relative to the working directory.
-/

namespace Keyring

/-- What a file holds: a text, or bytes that are no text. -/
inductive Content where
  | text (s : String)
  | bytes (b : List UInt8)
deriving DecidableEq, Repr

inductive Entry where
  | file (content : Content) (mode : Nat) (modified : Time.Instant)
  | directory (mode : Nat)
  | link (target : String)
deriving DecidableEq, Repr

abbrev Place := List String

structure Disk where
  /-- Every place but the root, at most once. -/
  entries : List (Place × Entry)
  workingPlace : Place
  /-- The time that is stamped on what is written. -/
  clock : Time.Instant
deriving DecidableEq, Repr

/-- An operation that may fail; what it did before it fails stays done. -/
abbrev DiskM := ExceptT FileError (StateM Disk)

namespace Disk

def entryAt (d : Disk) (at_ : Place) : Option Entry :=
  if at_ = [] then some (.directory 0o755) else d.entries.lookup at_

def put (d : Disk) (at_ : Place) (e : Entry) : Disk :=
  { d with entries := d.entries.filter (·.1 ≠ at_) ++ [(at_, e)] }

def erase (d : Disk) (at_ : Place) : Disk :=
  { d with entries := d.entries.filter (·.1 ≠ at_) }

def isDirectoryAt (d : Disk) (at_ : Place) : Bool :=
  match d.entryAt at_ with
  | some (.directory _) => true
  | _ => false

def longestName : Nat := 255
def longestPath : Nat := 4095
def mostLinks : Nat := 40

/-- What is wrong with a text as a path. -/
def pathFault? (p : Path) : Option FileError :=
  if p.toList.contains '\x00' then some .badPath
  else if p.isEmpty then some .notFound
  else if longestPath < Text.utf8Length p then some .nameTooLong
  else none

/-- From a place along some names. `throughLast` says whether a link at the end is followed. The
place need not exist, the one that holds it must. -/
def walk (d : Disk) (throughLast : Bool) : Nat → Nat → Place → List String → Except FileError Place
  | 0, _, _, _ => .error .tooManyLinks
  | _ + 1, _, at_, [] => .ok at_
  | fuel + 1, links, at_, name :: rest =>
    if !d.isDirectoryAt at_ then
      .error (if (d.entryAt at_).isSome then .notDirectory else .notFound)
    else if name = "" ∨ name = "." then walk d throughLast fuel links at_ rest
    else if name = ".." then walk d throughLast fuel links at_.dropLast rest
    else if longestName < Text.utf8Length name then .error .nameTooLong
    else
      match d.entryAt (at_ ++ [name]) with
      | some (.link target) =>
        if rest = [] ∧ !throughLast then .ok (at_ ++ [name])
        else if links = 0 then .error .tooManyLinks
        else if target.isEmpty then .error .notFound
        else walk d throughLast fuel (links - 1)
          (if Path.isAbsolute target then [] else at_)
          ((Path.segments target).map String.ofList ++ rest)
      | _ => walk d throughLast fuel links (at_ ++ [name]) rest

/-- Enough steps for every name of a path and of the links that may be followed. -/
def walkFuel (d : Disk) (p : Path) : Nat :=
  let longest := (d.entries.map fun
    | (_, .link target) => target.length
    | _ => 0).foldl max 0
  p.length + (mostLinks + 1) * (longest + 2) + 2

def place (d : Disk) (throughLast : Bool) (p : Path) : Except FileError Place :=
  match pathFault? p with
  | some e => .error e
  | none =>
    d.walk throughLast (d.walkFuel p) mostLinks (if Path.isAbsolute p then [] else d.workingPlace)
      ((Path.segments p).map String.ofList)

/-- The place that a path leads to and what is there. -/
def find (d : Disk) (throughLast : Bool) (p : Path) : Except FileError (Place × Entry) := do
  let at_ ← d.place throughLast p
  match d.entryAt at_ with
  | some e => return (at_, e)
  | none => throw .notFound

def exists_ (d : Disk) (p : Path) : Bool := (d.find true p).isOk

def isFile (d : Disk) (p : Path) : Bool :=
  match d.find true p with
  | .ok (_, .file ..) => true
  | _ => false

def isDirectory (d : Disk) (p : Path) : Bool :=
  match d.find true p with
  | .ok (_, .directory _) => true
  | _ => false

/-- The permissions of a file or directory. -/
def mode (d : Disk) (p : Path) : Except FileError Nat := do
  match ← d.find true p with
  | (_, .file _ mode _) => return mode % 0o1000
  | (_, .directory mode) => return mode % 0o1000
  | (_, .link _) => throw .tooManyLinks

def modified? (d : Disk) (p : Path) : Option Time.Instant :=
  match d.find true p with
  | .ok (_, .file _ _ t) => some t
  | _ => none

def readText (d : Disk) (p : Path) : Except FileError String := do
  match ← d.find true p with
  | (_, .file (.text s) _ _) => return s
  | (_, .file (.bytes _) _ _) => throw .notText
  | (_, .directory _) => throw .isDirectory
  | (_, .link _) => throw .tooManyLinks

/-- The text of a file that need not be there. -/
def readOptional (d : Disk) (p : Path) : Except FileError (Option String) :=
  match d.readText p with
  | .ok s => .ok (some s)
  | .error .notFound => .ok none
  | .error e => .error e

def pathOf (at_ : Place) : Path := if at_ = [] then "/" else String.join (at_.map ("/" ++ ·))

/-- The path without links that leads to the same entry. -/
def canonical (d : Disk) (p : Path) : Except FileError Path := do
  return pathOf (← d.find true p).1

/-- That path, or the path itself where nothing is there. -/
def canonicalOrSame (d : Disk) (p : Path) : Path := (d.canonical p).toOption.getD p

end Disk

end Keyring

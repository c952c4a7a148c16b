import Keyring.Disk.Basic

/-!
# Writing to a disk

A file is written beside its place first and then moved there, so that no reader
finds half of it. A link at that place is replaced; what it leads to stays.
-/

namespace Keyring.Disk

def fileMode : Nat := 0o644
def directoryMode : Nat := 0o755
def privateFileMode : Nat := 0o600

def ofExcept {α : Type} (r : Except FileError α) : DiskM α :=
  match r with
  | .ok a => pure a
  | .error e => throw e

/-- The answer to a question about the disk. -/
def ask {α : Type} (question : Disk → Except FileError α) : DiskM α := do ofExcept (question (← get))

/-- A path whose end only asks for a directory, without that end. -/
def withoutEndSlashes (p : Path) : Path :=
  let cs := (p.toList.reverse.dropWhile (· = '/')).reverse
  if cs = [] then p else String.ofList cs

/-- A new directory; its parent must be there, and nothing at its place. -/
def makeDirectory (p : Path) : DiskM Unit := do
  let at_ ← ask (·.place false (withoutEndSlashes p))
  if ((← get).entryAt at_).isSome then throw .exists
  else modify (·.put at_ (.directory directoryMode))

/-- A directory made, where its place may hold one already. -/
def makeOrFindDirectory (p : Path) : DiskM Unit := do
  try makeDirectory p
  catch e => if (← get).isDirectory p then pure () else throw e

/-- A directory and all that lead to it. The steps are bounded by the length of the path. -/
def makeDirectories : Nat → Path → DiskM Unit
  | 0, _ => throw .notFound
  | fuel + 1, p => do
    if p.isEmpty then return
    try makeOrFindDirectory p
    catch
      | .notFound => do
        match Path.parent? p with
        | some parent => makeDirectories fuel parent
        | none => throw .notFound
        makeOrFindDirectory p
      | e => throw e

def ensureDirectory (p : Path) : DiskM Unit := makeDirectories (p.length + 1) p

/-- The permissions of what a path leads to. -/
def setMode (p : Path) (mode : Nat) : DiskM Unit := do
  match ← ask (·.find true p) with
  | (at_, .file content _ modified) => modify (·.put at_ (.file content (mode % 0o10000) modified))
  | (at_, .directory _) =>
    if at_ = [] then pure () else modify (·.put at_ (.directory (mode % 0o10000)))
  | (_, .link _) => throw .tooManyLinks

/-- What a file written now is. -/
def newFile (d : Disk) (content : Content) (mode : Nat) : Entry := .file content mode d.clock

/-- The last name of a path is one of a file. -/
def checkFileName (p : Path) : Except FileError Unit :=
  let last := (Path.segments (withoutEndSlashes p)).getLast?.getD []
  if p.isEmpty then .error .notFound
  else if last = [] ∨ last = ['.'] ∨ last = ['.', '.'] then .error .busy
  else if p.toList.getLast? = some '/' then .error .notDirectory
  else .ok ()

/-- A file put at a place that is no directory; the last name of its path is not a link that is
followed. -/
def replaceFile (p : Path) (content : Content) : DiskM Unit := do
  ofExcept (checkFileName p)
  let at_ ← ask (·.place false p)
  if (← get).isDirectoryAt at_ then throw .isDirectory
  modify fun d => d.put at_ (d.newFile content privateFileMode)

/-- A file written as a whole, its directories made where they are missing. -/
def writeWhole (p : Path) (content : Content) : DiskM Unit := do
  let parent := (Path.parent? p).getD ""
  if !parent.isEmpty then
    ensureDirectory parent
    if !(← get).isDirectory parent then throw .notDirectory
  replaceFile p content

/-- A file written as a whole, with permissions of its own. -/
def writeWholeWithMode (p : Path) (content : Content) (mode : Nat) : DiskM Unit := do
  writeWhole p content
  setMode p mode

/-- A file written in place, through a link. A new one has the usual permissions. -/
def writeThrough (p : Path) (content : Content) : DiskM Unit := do
  let at_ ← ask (·.place true p)
  match (← get).entryAt at_ with
  | some (.file _ mode _) => modify fun d => d.put at_ (d.newFile content mode)
  | some _ => throw .isDirectory
  | none =>
    if p.toList.getLast? = some '/' then throw .isDirectory
    modify fun d => d.put at_ (d.newFile content fileMode)

/-- A file or link taken away. -/
def removeFile (p : Path) : DiskM Unit := do
  match ← ask (·.find false p) with
  | (_, .directory _) => throw .isDirectory
  | (at_, _) => modify (·.erase at_)

end Keyring.Disk

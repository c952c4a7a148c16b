import Keyring.Text.Blank

/-!
# Paths

Paths are texts. Repeated slashes, slashes at the end and segments `.` inside a
path do not count, save in its text; `/` in front makes it absolute.
-/

namespace Keyring

abbrev Path := String

namespace Path

def isAbsolute (p : Path) : Bool := p.toList.head? = some '/'

def segments (p : Path) : List (List Char) := Text.pieces (· = '/') p.toList

/-- A segment that names nothing. -/
def isVoid (s : List Char) : Bool := s = [] || s = ['.']

/-- The segments that count; a relative path keeps a `.` in front. -/
def components (p : Path) : List String :=
  let front := if p.isAbsolute then ["/"] else if p.segments.head? = some ['.'] then ["."] else []
  front ++ ((p.segments.filter fun s => !isVoid s).map String.ofList)

/-- Segments without those at the end that name nothing; the first one stays. -/
def trimSegments (segments : List (List Char)) : List (List Char) :=
  match segments with
  | [] => []
  | first :: rest => first :: (rest.reverse.dropWhile isVoid).reverse

def ofSegments (absolute : Bool) (segments : List (List Char)) : Path :=
  if absolute ∧ segments = [[]] then "/"
  else String.ofList (['/'].intercalate segments)

/-- Everything but the last segment; `none` for the root and the empty path. -/
def parent? (p : Path) : Option Path :=
  let kept := trimSegments p.segments
  if kept = [[]] then none
  else some (ofSegments p.isAbsolute
    (if kept.length = 1 then [[]] else trimSegments kept.dropLast))

/-- The last segment, unless it is `.` or `..`. -/
def fileName? (p : Path) : Option String :=
  match (trimSegments p.segments).getLast? with
  | some name => if isVoid name ∨ name = ['.', '.'] then none else some (String.ofList name)
  | none => none

/-- A path taken from another one; an absolute path stays as it is. -/
def join (p q : Path) : Path :=
  if q.isAbsolute then q
  else if p.isEmpty ∨ p.toList.getLast? = some '/' then p ++ q
  else p ++ "/" ++ q

/-- The path beside this one that has another last segment. -/
def withFileName (p : Path) (name : String) : Path :=
  match p.fileName? with
  | some _ => join (p.parent?.getD p) name
  | none => join p name

/-- What follows the last point of the last segment, if something stands before it. -/
def extension? (p : Path) : Option String :=
  p.fileName?.bind fun name =>
    match Text.cut (· = '.') name.toList.reverse with
    | some (after, before) => if before = [] then none else some (String.ofList after.reverse)
    | none => none

def startsWith (p front : Path) : Bool := front.components.isPrefixOf p.components

end Path

end Keyring

import Keyring.Text.Blank
import Keyring.Text.Utf8
import Keyring.Time.Rfc3339

/-!
# Tables

Columns are as wide as their widest cell, two spaces apart. A width is counted
in bytes, and cells are filled up by characters.
-/

namespace Keyring.CommandLine

def padCell (width : Nat) (s : String) : List Char :=
  s.toList ++ List.replicate (width - s.toList.length) ' '

/-- The wider of two rows of widths, column by column; the first row says how many columns. -/
def widen : List Nat → List String → List Nat
  | w :: ws, cell :: cells => max w (Text.utf8Length cell) :: widen ws cells
  | ws, _ => ws

def widths (headers : List String) (rows : List (List String)) : List Nat :=
  rows.foldl widen (headers.map Text.utf8Length)

/-- A row of cells without blanks at its end. -/
def rowText (widths : List Nat) (cells : List String) : String :=
  String.ofList (Text.trimRight ([' ', ' '].intercalate ((widths.zip cells).map fun (w, s) => padCell w s)))

def ruleText (widths : List Nat) : String :=
  String.ofList ([' ', ' '].intercalate (widths.map (List.replicate · '-')))

/-- The lines of a table: its headers, a rule, and its rows. -/
def tableLines (headers : List String) (rows : List (List String)) : List String :=
  let ws := widths headers rows
  rowText ws headers :: ruleText ws :: rows.map (rowText ws)

/-- The date of an instant, or a dash. -/
def dateCell (t : Option Time.Instant) : String := (t.map (·.dateText)).getD "-"

def orDash (s : Option String) : String := s.getD "-"

end Keyring.CommandLine

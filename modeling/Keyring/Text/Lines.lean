/-!
# Lines

A text is the concatenation of its lines, each with its line feed; only the
last line may lack one.
-/

namespace Keyring.Text

/-- The lines of a text, each with the line feed that ends it. -/
def lines : List Char → List (List Char)
  | [] => []
  | c :: rest =>
    if c = '\n' then [c] :: lines rest
    else match lines rest with
      | [] => [[c]]
      | line :: more => (c :: line) :: more

theorem flatten_lines (cs : List Char) : (lines cs).flatten = cs := by
  induction cs with
  | nil => rfl
  | cons c rest ih =>
    unfold lines
    split
    · simp [ih]
    · cases h : lines rest with
      | nil => simp [h] at ih; simp [← ih]
      | cons line more => simp [h] at ih; simp [← ih]

/-- Whether a text ends with a line feed. -/
def endsLine (cs : List Char) : Bool := cs.getLast? = some '\n'

end Keyring.Text

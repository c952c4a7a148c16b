import Keyring.Remote.Shell
import Keyring.Script.Word
import Mathlib.Data.List.Basic

/-!
# How a shell reads

A shell reads a text one character at a time (`Reader.step`) and takes it apart into words and
the characters of operators (`tokens?`). Of each character of a word it keeps whether it was
quoted, since one that was stands for itself. A text in single quotes, with its own single
quotes escaped outside of them, is read to its end as one word that is the text
(`Reader.read_shellQuote`), wherever it stands (`tokens?_around`).
-/

namespace Keyring.Remote

/-! ## Words and what they are read from -/

/-- What a shell may still make of a character of a word. -/
inductive Force where
  /-- Outside of quotes: all that it stands for. -/
  | bare
  /-- Within double quotes: only what a dollar sign stands for. -/
  | double
  /-- After a backslash or within single quotes: nothing but itself. -/
  | literal
deriving DecidableEq, Repr

structure Letter where
  char : Char
  force : Force
deriving DecidableEq, Repr

inductive Token where
  | word (letters : List Letter)
  /-- A character of an operator. -/
  | sign (c : Char)
deriving DecidableEq, Repr

/-- The rules that the next character is read by. -/
inductive Mode where
  | bare
  /-- After a backslash outside of quotes. -/
  | escape
  | single
  | double
  /-- After a backslash within double quotes. -/
  | doubleEscape
deriving DecidableEq, Repr

structure Reader where
  done : List Token
  /-- The word that has begun; quotes begin one even if nothing is in them. -/
  word : Option (List Letter)
  /-- The round brackets that are open in a command whose output is a part of the word. -/
  depth : Nat
  mode : Mode
deriving DecidableEq, Repr

namespace Reader

def start : Reader := ⟨[], none, 0, .bare⟩

def begun (r : Reader) : Reader := { r with word := some (r.word.getD []) }

def add (r : Reader) (c : Char) (force : Force) : Reader :=
  { r with word := some (r.word.getD [] ++ [⟨c, force⟩]) }

def closed (r : Reader) : Reader :=
  match r.word with
  | some letters => { r with done := r.done ++ [.word letters], word := none }
  | none => r

/-- The last character was a dollar sign that does not stand for itself. -/
def expands (r : Reader) : Bool :=
  match r.word.bind List.getLast? with
  | some ⟨c, force⟩ => c = '$' && force ≠ .literal
  | none => false

/-- Outside of quotes. -/
def stepBare (r : Reader) (c : Char) : Option Reader :=
  if c = '\x60' ∨ c = '<' ∨ ['\'', '"', '\x7b'].contains c ∧ r.expands then none
  else if c = '\'' then some { r.begun with mode := .single }
  else if c = '"' then some { r.begun with mode := .double }
  else if c = '\\' then some { r with mode := .escape }
  else if c = '(' ∧ r.expands then some { r.add c .bare with depth := r.depth + 1 }
  else if r.depth = 0 then
    if Script.isBlank c then some r.closed
    else if Script.endsWord c then some { r.closed with done := r.closed.done ++ [.sign c] }
    else if c = '#' ∧ r.word = none then none
    else some (r.add c .bare)
  else if c = '#' ∨ c = '(' then none
  else some { r.add c .bare with depth := if c = ')' then r.depth - 1 else r.depth }

/-- Within double quotes. -/
def stepDouble (r : Reader) (c : Char) : Option Reader :=
  if c = '"' then some { r with mode := .bare }
  else if c = '\\' then some { r with mode := .doubleEscape }
  else if c = '\x60' ∨ (c = '(' ∨ c = '\x7b') ∧ r.expands then none
  else some (r.add c .double)

/-- What a backslash and a character after it come to within double quotes. -/
def addEscaped (r : Reader) (c : Char) : Reader :=
  if c = '\n' then r
  else if ['$', '\x60', '"', '\\'].contains c then r.add c .literal
  else (r.add '\\' .double).add c .double

/-- One character more. There is `none` where the shell would need other rules: at a NUL, a
backquote, a comment, a sign for input, a dollar sign before quotes or braces, and a command in
double quotes or within another one. -/
def step (r : Reader) (c : Char) : Option Reader :=
  if c = '\x00' then none
  else match r.mode with
    | .bare => r.stepBare c
    | .escape => some { (if c = '\n' then r else r.add c .literal) with mode := .bare }
    | .single => some (if c = '\'' then { r with mode := .bare } else r.add c .literal)
    | .double => r.stepDouble c
    | .doubleEscape => some { r.addEscaped c with mode := .double }

def read (r : Reader) (cs : List Char) : Option Reader := cs.foldlM step r

/-- What was read, if nothing is left open. -/
def finish? (r : Reader) : Option (List Token) :=
  if r.mode = .bare ∧ r.depth = 0 then some r.closed.done else none

end Reader

/-- The words and operators of a whole text. -/
def tokens? (text : String) : Option (List Token) := (Reader.start.read text.toList).bind Reader.finish?

/-- A text each of whose characters stands for itself. -/
def literal (s : String) : List Letter := s.toList.map (⟨·, .literal⟩)

namespace Reader

variable {r r' : Reader} {c : Char} {cs more : List Char} {s : String}

theorem read_nil (r : Reader) : r.read [] = some r := rfl

theorem read_cons (r : Reader) (c : Char) (cs : List Char) : r.read (c :: cs) = (r.step c).bind (·.read cs) := rfl

theorem read_append (r : Reader) (cs more : List Char) : r.read (cs ++ more) = (r.read cs).bind (·.read more) :=
  List.foldlM_append

/-- A reader that had read some tokens before. -/
def after (r : Reader) (before : List Token) : Reader := { r with done := before ++ r.done }

variable {before : List Token}

theorem closed_after : (r.after before).closed = r.closed.after before := by
  obtain ⟨done, word, depth, mode⟩ := r
  cases word with
  | none => rfl
  | some letters => simp [closed, after]

theorem addEscaped_after : (r.after before).addEscaped c = (r.addEscaped c).after before := by
  unfold addEscaped
  split
  · rfl
  · split
    · rfl
    · rfl

theorem stepBare_after : (r.after before).stepBare c = (r.stepBare c).map (·.after before) := by
  have expands : (r.after before).expands = r.expands := rfl
  have depth : (r.after before).depth = r.depth := rfl
  have word : (r.after before).word = r.word := rfl
  have sign : (r.closed.after before).done ++ [.sign c] = before ++ (r.closed.done ++ [.sign c]) :=
    List.append_assoc ..
  unfold stepBare
  rw [expands, depth, word, closed_after, sign]
  -- both sides ask the same questions, and each answer is the same but for what was read before
  simp only [apply_ite (Option.map fun r : Reader => r.after before)]
  rfl

theorem stepDouble_after : (r.after before).stepDouble c = (r.stepDouble c).map (·.after before) := by
  have expands : (r.after before).expands = r.expands := rfl
  unfold stepDouble
  rw [expands]
  split_ifs <;> rfl

theorem step_after : (r.after before).step c = (r.step c).map (·.after before) := by
  have mode : (r.after before).mode = r.mode := rfl
  unfold step
  rw [mode]
  split
  · rfl
  · cases r.mode with
    | bare => exact stepBare_after
    | escape =>
      dsimp only
      split_ifs <;> rfl
    | single =>
      dsimp only
      split_ifs <;> rfl
    | double => exact stepDouble_after
    | doubleEscape =>
      dsimp only
      rw [addEscaped_after]
      rfl

theorem read_after (r : Reader) (before : List Token) (cs : List Char) :
    (r.after before).read cs = (r.read cs).map (·.after before) := by
  induction cs generalizing r with
  | nil => rfl
  | cons c cs ih =>
    rw [read_cons, read_cons, step_after]
    cases r.step c with
    | none => rfl
    | some r' => exact ih r'

theorem finish?_after : (r.after before).finish? = r.finish?.map (before ++ ·) := by
  unfold finish?
  rw [closed_after]
  show (if r.mode = .bare ∧ r.depth = 0 then _ else _) = _
  split
  · rfl
  · rfl

theorem step_quote (bare : r.mode = .bare) (apart : r.expands = false) :
    r.step '\'' = some { r.begun with mode := .single } := by
  rw [step, if_neg (by decide), bare]
  simp [stepBare, apart]

theorem expands_add_literal : (r.add c .literal).expands = false := by
  simp [expands, add]

/-- Within single quotes a character comes to itself, if it had to be written without them too. -/
theorem read_quotedChar (single : r.mode = .single) (noNul : c ≠ '\x00') :
    r.read (quotedChar c) = some (r.add c .literal) := by
  by_cases quote : c = '\''
  · subst quote
    -- the quotes end, a quote follows for itself, and the quotes begin again
    have ends : r.step '\'' = some { r with mode := .bare } := by
      rw [step, if_neg (by decide), single]
      rfl
    have escapes : step { r with mode := .bare } '\\' = some { r with mode := .escape } := by
      simp [step, stepBare]
    have itself : step { r with mode := .escape } '\'' = some (add { r with mode := .bare } '\'' .literal) := rfl
    have begins : step (add { r with mode := .bare } '\'' .literal) '\'' = some (r.add '\'' .literal) := by
      rw [step_quote rfl expands_add_literal]
      simp [begun, add, single]
    have four : quotedChar '\'' = ['\'', '\\', '\'', '\''] := rfl
    rw [four, read_cons, ends, Option.bind_some, read_cons, escapes, Option.bind_some, read_cons, itself,
      Option.bind_some, read_cons, begins, Option.bind_some, read_nil]
  · rw [quotedChar, if_neg quote, read_cons, step, if_neg noNul, single]
    simp [quote, read_nil]

theorem read_quotedChars (single : r.mode = .single) (noNul : '\x00' ∉ cs) :
    r.begun.read (cs.flatMap quotedChar) =
      some { r with word := some (r.word.getD [] ++ cs.map (⟨·, .literal⟩)) } := by
  induction cs generalizing r with
  | nil => simp [read_nil, begun]
  | cons c cs ih =>
    rw [List.mem_cons, not_or] at noNul
    have first : r.begun.read (quotedChar c) = some (r.begun.add c .literal) :=
      read_quotedChar single (Ne.symm noNul.1)
    have rest := @ih (r.begun.add c .literal) single noNul.2
    rw [List.flatMap_cons, read_append, first, Option.bind_some]
    simpa [begun, add] using rest

/-- A quoted text adds its characters to the word, each for itself, and leaves the reader outside of
quotes. -/
theorem read_shellQuote (bare : r.mode = .bare) (apart : r.expands = false) (noNul : '\x00' ∉ s.toList) :
    r.read (shellQuote s).toList = some { r with word := some (r.word.getD [] ++ literal s) } := by
  have inner : read { r.begun with mode := .single } (s.toList.flatMap quotedChar) =
      some { r with word := some (r.word.getD [] ++ literal s), mode := .single } :=
    read_quotedChars (r := { r with mode := .single }) rfl noNul
  rw [shellQuote, String.toList_ofList, List.cons_append, read_cons, step_quote bare apart, Option.bind_some,
    read_append, inner, Option.bind_some, read_cons, step, if_neg (by decide)]
  simp [read_nil, bare]

theorem step_blank (bare : r.mode = .bare) (outside : r.depth = 0) : r.step ' ' = some r.closed := by
  rw [step, if_neg (by decide), bare]
  simp [stepBare, outside, Script.isBlank]

end Reader

variable {front back s : String} {tokens : List Token}

theorem tokens?_shellQuote (noNul : '\x00' ∉ s.toList) : tokens? (shellQuote s) = some [.word (literal s)] := by
  rw [tokens?, Reader.read_shellQuote rfl rfl noNul]
  rfl

/-- A quoted text that stands between blanks is one word, whatever it is, and takes no part in how the
text around it is read. -/
theorem tokens?_around (read : Reader.start.read front.toList = some (Reader.start.after tokens))
    (noNul : '\x00' ∉ s.toList) : tokens? (front ++ shellQuote s ++ (" " ++ back)) =
      (tokens? back).map fun more => tokens ++ .word (literal s) :: more := by
  let within : Reader := { Reader.start.after tokens with word := some (literal s) }
  have quoted : (Reader.start.after tokens).read (shellQuote s).toList = some within :=
    Reader.read_shellQuote rfl rfl noNul
  have ended : within.step ' ' = some (Reader.start.after (tokens ++ [.word (literal s)])) := by
    rw [Reader.step_blank rfl rfl]
    simp [within, Reader.closed, Reader.start, Reader.after]
  have blank : (" " ++ back).toList = ' ' :: back.toList := String.toList_append
  rw [tokens?, String.toList_append, String.toList_append, Reader.read_append, Reader.read_append, read,
    Option.bind_some, quoted, Option.bind_some, blank, Reader.read_cons, ended, Option.bind_some,
    Reader.read_after, tokens?]
  cases Reader.start.read back.toList with
  | none => rfl
  | some r =>
    rw [Option.map_some, Option.bind_some, Option.bind_some, Reader.finish?_after]
    simp

end Keyring.Remote

import Keyring.Script.Command

/-!
# The grammar of scripts

Reading takes the tokens of a command from the front and gives the command with
the tokens after it.
-/

namespace Keyring.Script

abbrev Tokens := List (Token × Nat)

/-- The reserved word or operator that comes first. -/
def sign? : Tokens → Option Bytes
  | (.word w, _) :: _ => w.bare?
  | (.operator s, _) :: _ => some s
  | _ => none

def sees (s : String) (ts : Tokens) : Bool := sign? ts = some s.toList

def past? (s : String) (ts : Tokens) : Option Tokens :=
  if sees s ts then some (ts.drop 1) else none

def skipLineEnds (ts : Tokens) : Tokens := ts.dropWhile (·.1 = .lineEnd)

/-- Words that start or end a part of a compound command. -/
def reserved : List String :=
  ["if", "then", "elif", "else", "fi", "while", "until", "for", "do", "done", "in", "case", "esac",
    "\x7b", "\x7d", "!"]

def isReserved (s : Bytes) : Bool := reserved.any (·.toList = s)

def assignment? (w : Word) : Option (Bytes × Word) :=
  let front := w.takeWhile fun p => p.bare?.isSome && p ≠ .plain false ['=']
  match w.drop front.length with
  | .plain false ['='] :: value =>
    (Word.bare? front).bind fun name => if isName name then some (name, value) else none
  | _ => none

/-- What a redirection sign and the word after it ask for. -/
def Redirection.ofWord? (channel : Nat) (reads : Bool) (w : Word) : Option Redirection := do
  let s ← w.bare?
  if reads then
    if channel = 0 ∧ s = "/dev/null".toList then some .readNothing else none
  else do
    let channel ← Channel.ofNumber? channel
    if s = "/dev/null".toList then some (.discard channel)
    else match s with
      | ['&', digit] => do return .follow channel (← Channel.ofNumber? (← Text.digitValue? digit))
      | _ => none

def readRedirections : Tokens → Option (List Redirection × Tokens)
  | (.redirection channel reads, _) :: (.word w, _) :: rest => do
    let r ← Redirection.ofWord? channel reads w
    let (more, rest) ← readRedirections rest
    return (r :: more, rest)
  | ts => some ([], ts)

/-- The words and redirections up to the end of a simple command. -/
def readWords : Tokens → Option (List Word × List Redirection × Tokens)
  | (.word w, _) :: rest => do
    let (ws, rs, rest) ← readWords rest
    return (w :: ws, rs, rest)
  | (.redirection channel reads, _) :: (.word w, _) :: rest => do
    let r ← Redirection.ofWord? channel reads w
    let (ws, rs, rest) ← readWords rest
    return (ws, r :: rs, rest)
  | (.redirection .., _) :: _ => none
  | ts => some ([], [], ts)

/-- The patterns before a closing bracket. -/
def readPatterns : Tokens → Option (List Word × Tokens)
  | (.word w, _) :: (.operator s, _) :: rest =>
    if s = [')'] then some ([w], rest)
    else if s = ['|'] then do
      let (more, rest) ← readPatterns rest
      return (w :: more, rest)
    else none
  | _ => none

/-- The first redirection is in force first, so it stands outermost. -/
def Command.withRedirections (c : Command) (rs : List Redirection) : Command :=
  rs.foldr (fun r c => .redirected c r) c

def simpleOf (line : Nat) (ws : List Word) : Command :=
  let assigned := ws.map assignment? |>.takeWhile Option.isSome
  .simple line (assigned.filterMap id) (ws.drop assigned.length)

def lineOf (ts : Tokens) : Nat := (ts.head?.map (·.2)).getD 0

mutual

def readCommand : Nat → Tokens → Option (Command × Tokens)
  | 0, _ => none
  | fuel + 1, ts =>
    if sees "!" ts then do
      let (c, ts) ← readCommand fuel (ts.drop 1)
      return (.negated c, ts)
    else do
      let (c, ts) ← readCompound fuel ts
      match c with
      | some c => do
        let (rs, ts) ← readRedirections ts
        return (c.withRedirections rs, ts)
      | none =>
        if (sign? ts).any isReserved then none
        else do
          let (ws, rs, after) ← readWords ts
          if ws = [] ∧ rs = [] then none
          else return ((simpleOf (lineOf ts) ws).withRedirections rs, after)

/-- A compound command, if one starts here. -/
def readCompound : Nat → Tokens → Option (Option Command × Tokens)
  | 0, _ => none
  | fuel + 1, ts =>
    if sees "while" ts || sees "until" ts then do
      let (test, rest) ← readList fuel (ts.drop 1)
      let (body, rest) ← readBody fuel rest
      return (some (.loop (sees "until" ts) test body), rest)
    else if sees "if" ts then do
      let (c, rest) ← readBranch fuel (ts.drop 1)
      return (some c, rest)
    else if sees "for" ts then
      match ts.drop 1 with
      | (.word w, _) :: rest => do
        let name ← w.bare?
        let items := skipLineEnds rest
        let (words, rest) ← if sees "in" items then do
            let (ws, rs, after) ← readWords (items.drop 1)
            if rs = [] then pure (some ws, after) else none
          else pure (none, rest)
        let rest := if sees ";" rest then rest.drop 1 else rest
        let (body, rest) ← readBody fuel (skipLineEnds rest)
        return (some (.each (lineOf ts) name words body), rest)
      | _ => none
    else if sees "case" ts then
      match ts.drop 1 with
      | (.word w, _) :: rest => do
        let (c, rest) ← readCases fuel (lineOf ts) w (← past? "in" (skipLineEnds rest))
        return (some c, rest)
      | _ => none
    else if sees "\x7b" ts then do
      let (c, rest) ← readList fuel (ts.drop 1)
      return (some c, ← past? "\x7d" rest)
    else if sees "(" ts then do
      let (c, rest) ← readList fuel (ts.drop 1)
      return (some (.enclosed c), ← past? ")" rest)
    else return (none, ts)

def readBranch : Nat → Tokens → Option (Command × Tokens)
  | 0, _ => none
  | fuel + 1, ts => do
    let (test, ts) ← readList fuel ts
    let (yes, ts) ← readList fuel (← past? "then" ts)
    if sees "elif" ts then do
      let (no, ts) ← readBranch fuel (ts.drop 1)
      return (.branch test yes no, ts)
    else if sees "else" ts then do
      let (no, ts) ← readList fuel (ts.drop 1)
      return (.branch test yes no, ← past? "fi" ts)
    else return (.branch test yes .nothing, ← past? "fi" ts)

/-- Patterns for a word with what to do for each, up to `esac`. -/
def readCases : Nat → Nat → Word → Tokens → Option (Command × Tokens)
  | 0, _, _, _ => none
  | fuel + 1, line, subject, ts => do
    let ts := skipLineEnds ts
    if sees "esac" ts then return (.nothing, ts.drop 1)
    let (patterns, ts) ← readPatterns (if sees "(" ts then ts.drop 1 else ts)
    let ts := skipLineEnds ts
    let (yes, ts) ← if sees ";;" ts || sees "esac" ts then pure (.nothing, ts) else readList fuel ts
    let ts := if sees ";;" ts then ts.drop 1 else ts
    let (no, ts) ← readCases fuel line subject ts
    return (.matching line subject patterns yes no, ts)

/-- What stands between `do` and `done`. -/
def readBody : Nat → Tokens → Option (Command × Tokens)
  | 0, _ => none
  | fuel + 1, ts => do
    let (c, ts) ← readList fuel (← past? "do" ts)
    return (c, ← past? "done" ts)

/-- Commands joined by `&&` and `||`, which bind alike and to the left. -/
def readChain : Nat → Command → Tokens → Option (Command × Tokens)
  | 0, _, _ => none
  | fuel + 1, first, ts =>
    if sees "&&" ts then do
      let (second, ts) ← readCommand fuel (skipLineEnds (ts.drop 1))
      readChain fuel (.both first second) ts
    else if sees "||" ts then do
      let (second, ts) ← readCommand fuel (skipLineEnds (ts.drop 1))
      readChain fuel (.either first second) ts
    else some (first, ts)

/-- Commands one after another, at least one. -/
def readList : Nat → Tokens → Option (Command × Tokens)
  | 0, _ => none
  | fuel + 1, ts => do
    let (first, ts) ← readCommand fuel (skipLineEnds ts)
    let (c, ts) ← readChain fuel first ts
    let rest := skipLineEnds (if sees ";" ts then ts.drop 1 else ts)
    let parted := rest.length < ts.length
    let ended := rest = [] || ((sign? rest).any fun s =>
      [")", ";;", "then", "elif", "else", "fi", "do", "done", "esac", "\x7d"].any (·.toList = s))
    if ended then return (c, rest)
    else if !parted then none
    else do
      let (more, rest) ← readList fuel rest
      return (.next c more, rest)

end

/-- The command that a script is, `none` where it cannot be read. -/
def Command.ofBytes? (cs : Bytes) : Option Command := do
  let ts ← tokensOf cs
  if skipLineEnds ts = [] then return .nothing
  let (c, rest) ← readList (4 * ts.length + 4) ts
  if rest = [] then return c else none

end Keyring.Script

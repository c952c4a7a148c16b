/-!
# Shell text

Commands that a remote shell runs. A word in single quotes is taken as it is.
-/

namespace Keyring.Remote

/-- A quote closes the word, stands escaped, and opens it again. -/
def quotedChar (c : Char) : List Char := if c = '\'' then ['\'', '\\', '\'', '\''] else [c]

def shellQuote (s : String) : String := String.ofList ('\'' :: s.toList.flatMap quotedChar ++ ['\''])

/-- Whether a key is among those that let a user in. -/
def searchScript (blob : String) : String :=
  "grep -qF " ++ shellQuote blob ++ " ~/.ssh/authorized_keys"

/-- The lines of a key taken out of the file of those that let a user in. The file is replaced only
if it could be read. -/
def removalScript (blob : String) : String :=
  "f=~/.ssh/authorized_keys; [ -f \"$f\" ] || exit 0; "
  ++ "t=$(mktemp \"$f.XXXXXX\") || exit 1; "
  ++ "grep -vF " ++ shellQuote blob ++ " \"$f\" > \"$t\"; rc=$?; "
  ++ "[ $rc -le 1 ] || \x7b rm -f \"$t\"; exit $rc; \x7d; "
  ++ "chmod 600 \"$t\" && mv \"$t\" \"$f\""

end Keyring.Remote

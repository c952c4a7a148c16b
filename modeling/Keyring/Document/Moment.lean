import Keyring.Document.Format
import Keyring.Time.Rfc3339

/-!
# Instants in documents

An instant is kept in a document as its text.
-/

namespace Keyring

def Data.ofInstant (t : Time.Instant) : Data := .text t.text

def Format.instant? {α : Type} [Format α] (a : α) : Reading Time.Instant := do
  Reading.ofOption (Time.Instant.ofText? (← Format.text? a))

end Keyring

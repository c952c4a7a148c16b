import Keyring.Document.Json
import Keyring.Document.JsonText
import Keyring.Error
import Keyring.Path
import Keyring.Yaml.Layout
import Keyring.Yaml.Node

/-!
# Kinds of documents

A document is YAML unless the name of its file ends in `.json`. A text of blanks
alone stands for nothing, and so for a default.
-/

namespace Keyring

inductive DocumentKind where
  | yaml
  | json
deriving DecidableEq, Repr

namespace DocumentKind

/-- By what follows the last point of the file name, in any case. -/
def ofPath (p : Path) : DocumentKind :=
  match p.extension? with
  | some e => if e.toList.map Char.toLower = "json".toList then json else yaml
  | none => yaml

def name : DocumentKind → String
  | yaml => "yaml"
  | json => "json"

def write (kind : DocumentKind) (d : Data) : String :=
  match kind with
  | yaml => Yaml.documentText d
  | json => Json.prettyText d ++ "\n"

/-- A record from the text of a file, by its views in either format. -/
def read {β : Type} (kind : DocumentKind) (ofYaml : Yaml.View → Reading β)
    (ofJson : Data → Reading β) (text : String) : Except Error β :=
  match kind with
  | yaml => match (Yaml.Document.ofText? text).bind (·.read? ofYaml) with
    | some b => .ok b
    | none => .error .unreadableYaml
  | json => match (Json.read? text).bind (·.read? ofJson) with
    | some b => .ok b
    | none => .error .unreadableJson

end DocumentKind

end Keyring

import Tabular.Document.Codec
import Tabular.Error

/-!
# Formats

A file is JSON or YAML, by its name: JSON if the extension says so in any letter
case, else YAML.
-/
namespace Tabular

/-- The name of the file that a path leads to, if it leads to one. -/
def fileName? (path : String) : Option String :=
  let parts := (path.splitOn "/").filter fun part => part ≠ "" && part ≠ "."
  parts.getLast?.filter (· ≠ "..")

/-- What follows the last point of a file name that has something in front of it. -/
def extension? (name : String) : Option String :=
  let parts := name.splitOn "."
  if parts.length < 2 ∨ parts.dropLast = [""] then none else parts.getLast?

/-- The formats that documents are read from. -/
inductive Format
  | json
  | yaml
  deriving DecidableEq

namespace Format

def ofPath (path : String) : Format :=
  match (fileName? path).bind extension? with
  | some e => if String.ofList (e.toList.map Char.toLower) = "json" then json else yaml
  | none => yaml

def read [Codec] : Format → String → Document
  | json => Codec.readJson
  | yaml => Codec.readYaml

def error : Format → Error
  | json => .json
  | yaml => .yaml

def decode [Codec] {α : Type} (format : Format) (ofDocument : Decoder α) (text : String) :
    Except Error α :=
  match ofDocument (format.read text) with
  | .ok value => .ok value
  | .error _ => .error format.error

end Format
end Tabular

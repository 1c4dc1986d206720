import Tabular.Dataset
import Tabular.Document.Codec

/-!
# Tables in documents

A dataset is a list of records. A cell is whatever scalar stands there: a whole
number becomes the double nearest to it, and a list or a record is no cell.
-/
namespace Tabular

namespace Cell

/-- A null, a truth value, a number or a text: the first that the document is. -/
def ofDocument [Codec] : Decoder Cell := Codec.firstOf [
  fun document => (Codec.null document).map fun _ => .null,
  fun document => (Codec.bool document).map .bool,
  fun document => (Codec.float document).map .number,
  fun document => (Codec.text document).map .text]

def toDocument : Cell → Document
  | null => .null
  | bool b => .bool b
  | number x => .float x
  | text s => .text s

end Cell

namespace Row

/-- A row of a document; of fields with one name the last counts. -/
def ofDocument [Codec] : Decoder Row := fun document =>
  (Codec.entries Cell.ofDocument document).map ofList

/-- A row in a document, its columns sorted. -/
def toDocument (row : Row) : Document :=
  .record (row.entries.map fun (name, cell) => (name, cell.toDocument))

end Row

namespace Dataset

def ofDocument [Codec] : Decoder Dataset := Codec.list Row.ofDocument

def toDocument (rows : Dataset) : Document := .list (rows.map Row.toDocument)

end Dataset
end Tabular

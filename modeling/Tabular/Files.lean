import Tabular.Document.Decoder
import Tabular.Document.Format
import Tabular.Document.Settings

/-!
# Files

Loading datasets and chart requests. How a file is read is a parameter, so that the
command line reads a disk and everything else may read a table of contents.
-/
namespace Tabular

/-- The content of the file at a path, if it can be read. -/
abbrev FileReader (m : Type → Type) := String → m (Option String)

namespace FileReader

variable {m : Type → Type} [Monad m]

/-- The content of a file, which has to be readable. -/
def content (read : FileReader m) (path : String) : ExceptT Error m String := do
  match ← read path with
  | some text => return text
  | none => throw .unreadable

def load {α : Type} (read : FileReader m) (ofDocument : Decoder α) (path : String) :
    ExceptT Error m α := do
  let text ← read.content path
  ExceptT.mk (pure ((Format.ofPath path).decode ofDocument text))

def dataset (read : FileReader m) (path : String) : ExceptT Error m Dataset :=
  read.load Dataset.ofDocument path

end FileReader

/-- A path seen from the directory of a file; an absolute path stays as it is. -/
def pathBeside (file path : String) : String :=
  if path.startsWith "/" then path
  else "/".intercalate ((file.splitOn "/").dropLast ++ [path])

/-- Load the rows of a chart request that names a file for them. Rows may not be
given and named at once. -/
def ChartRequest.withRows {m : Type → Type} [Monad m] (request : ChartRequest)
    (read : FileReader m) (path : String) : ExceptT Error m ChartRequest :=
  match request.data?, request.dataFile? with
  | some _, some _ => throw (.invalid .twoDataSources)
  | none, some file => do
    let rows ← read.dataset (pathBeside path file)
    return { request with data? := some rows }
  | _, none => return request

/-- The chart request that a file holds, with its rows. -/
def FileReader.chartRequest {m : Type → Type} [Monad m] (read : FileReader m)
    (path : String) : ExceptT Error m ChartRequest := do
  let request ← read.load ChartRequest.ofDocument path
  request.withRows read path

end Tabular

import Tabular.Formula.AggregateCall
import Tabular.Formula.Compile
import Tabular.Formula.Mode
import Tabular.Formula.Scan

/-!
# Formulas bound to a dataset

A compiled formula has its aggregates computed, its columns resolved to the
dataset's spelling and its arithmetic in postfix form. It reads the row columns it
lists and nothing else of a row.
-/
namespace Tabular.Formula

/-- A formula bound to one dataset. -/
structure Compiled where
  source : String
  program : Program
  aggregates : List AggregateResult
  reads : List String

/-- A list with a name at its end, unless it is there already. -/
def appendNew (name : String) (list : List String) : List String :=
  if list.contains name then list else list ++ [name]

/-- Tokens with their column references resolved, and the columns they refer to in
order of first reference, added to those in `noted`. Columns among `keys` stay as
they are. -/
def resolveColumns (available keys : List String) :
    List Token → List String → Except Error (List Token × List String)
  | [], noted => .ok ([], noted)
  | t :: rest, noted =>
    if t.kind ≠ .column ∨ keys.contains t.value then
      match resolveColumns available keys rest noted with
      | .error e => .error e
      | .ok (tokens, noted) => .ok (t :: tokens, noted)
    else
      match require (resolve t.value available) t.value available with
      | .error e => .error e
      | .ok column =>
        match resolveColumns available keys rest (appendNew column noted) with
        | .error e => .error e
        | .ok (tokens, noted) => .ok (⟨.column, column, t.offset⟩ :: tokens, noted)

namespace Compiled

def compile (formula : String) (rows : Dataset) : Except Error Compiled := do
  let tokens ← (tokenize formula).mapError .scan
  let available := columns rows
  let extraction ← computeCalls tokens rows available
  let (resolved, reads) ←
    resolveColumns available (extraction.computed.map AggregateResult.key) extraction.tokens []
  let program ← (Program.compile resolved).mapError .eval
  return ⟨formula, program, extraction.computed, reads⟩

def results (f : Compiled) : List (String × Option Float) :=
  f.aggregates.map fun a => (a.key, a.value)

/-- The formula reads no row, so it has one value for the dataset. -/
def isConstant (f : Compiled) : Bool := f.reads.isEmpty

def onRow (f : Compiled) (row : Row) : Except EvalError (Option Float) :=
  f.program.evaluate { results := f.results, row? := some row }

/-- The formula's value without a row; reading a row column is an error here. -/
def onDataset (f : Compiled) : Except EvalError (Option Float) :=
  f.program.evaluate { results := f.results }

end Compiled

/-- The rows with the value of a formula in an output column: each row with the column
written, or one row with nothing else. -/
def evaluate (rows : Dataset) (formula output : String) (mode : Mode) :
    Except Error Dataset := do
  let compiled ← Compiled.compile formula rows
  match mode with
  | .datasetWise =>
    let value ← compiled.onDataset.mapError .eval
    return [Row.empty.insert output (.ofValue value)]
  | .rowWise =>
    rows.mapM fun row => do
      let value ← (compiled.onRow row).mapError .eval
      return row.insert output (.ofValue value)

/-- What checking a formula against a list of columns tells about it. -/
structure Summary where
  tokens : List Token
  columns : List String
  aggregates : List String
  rpn : String
  deriving DecidableEq

/-- A formula checked without data: aggregate calls are replaced by the literal one,
so every rejection, unknown column and malformed expression is found. -/
def validate (formula : String) (available : List String) : Except Error Summary := do
  let tokens ← (tokenize formula).mapError .scan
  let (replaced, referenced, aggregates) ← replaceCalls (fun call (columns, aggregates) => do
    let column ← require (resolve call.column available) call.column available
    return (⟨.number, "1", call.offset⟩, appendNew column columns,
      appendNew (call.name column) aggregates)) tokens ([], [])
  let (resolved, referenced) ← resolveColumns available [] replaced referenced
  let program ← (Program.compile resolved).mapError .eval
  return ⟨tokens, referenced, aggregates, program.display⟩

end Tabular.Formula

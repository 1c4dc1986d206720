import Tabular.Command.Invocation
import Tabular.Command.Table
import Tabular.Document.Report
import Tabular.Files
import Tabular.Instant
import Tabular.Version

/-!
# The command line

`Command.run` does what an invocation asks for. Reading files is a parameter, so that
the outcome is a value: what is printed, and the failure if there was one.
-/
namespace Tabular.Command

open Formula (Mode)

/-- What a command prints, and what it failed with. -/
structure Outcome where
  out : String := ""
  err : String := ""
  failure? : Option Error := none

def lines (ls : List String) : String := String.join (ls.map fun l => l ++ "\n")

def jsonText (document : Document) : String := lines [Json.pretty "" document]

/-- A label and names, unless there are none. -/
def namesLine (label : String) (names : Option (List String)) : List String :=
  match names with
  | some names => [label ++ ", ".intercalate names]
  | none => []

/-- A failed formula and a caret under the character that is blamed. -/
def formulaFailure (formula : String) : Error → String
  | .scan cause => cause.withCaret formula
  | e =>
    match e.offset? with
    | some offset => Formula.caretLines formula offset e.message
    | none => e.message

def chartLines (request : String) (chart : ChartData) : List String :=
  let m := chart.metadata
  ["📊 Chart data", "   Request: " ++ request, "   Chart:   " ++ m.chartType,
    "   Rows:    " ++ toString m.inputRowCount ++ " → " ++ toString m.resultRowCount] ++
  (m.aggregation?.map fun kind => "   Aggregation: " ++ kind.name).toList ++
  namesLine "   Grouped by:  " m.groupedBy? ++
  (m.formula?.map fun formula => "   Formula:     " ++ formula).toList ++
  namesLine "   Derived:     " m.derivedMetrics? ++
  [""] ++ tableLines chart.rows

def breakdownLines (b : Breakdown) : List String :=
  ["🔍 Calculation breakdown", "   Expression: " ++ b.expression,
    "   Result:     " ++ resultText b.result, "   Values:     " ++ toString b.valueCount] ++
  b.aggregates.map (fun a => "   " ++ a.name ++ " = " ++ resultText a.value) ++
  [""] ++
  b.samples.map fun (column, values) =>
    "   " ++ column ++ " " ++ ", ".intercalate (values.map numberText)

def evaluationLines (formula output : String) (mode : Mode) (rows : Dataset) :
    List String :=
  ["🧮 Formula", "   " ++ output ++ " = " ++ formula, "   Mode: " ++ mode.name, ""] ++
  tableLines rows

def callText (kind : AggregateKind) (column : String) : String :=
  Text.upper kind.name ++ "(" ++ column ++ ")"

def groupLines (count : Nat) (groupColumns : List String) (rows : Dataset) : List String :=
  ["📦 Group by", "   " ++ toString count ++ " rows → " ++ toString rows.length ++
    " groups on " ++ ", ".intercalate groupColumns, ""] ++ tableLines rows

def pivotLines (config : PivotConfig) (rows : Dataset) : List String :=
  ["🔀 Pivot", "   " ++ callText config.kind config.valueColumn ++ " by " ++
    ", ".intercalate config.indexColumns ++ " × " ++ ", ".intercalate config.pivotColumns,
    ""] ++ tableLines rows

def summaryLines (formula : String) (s : Formula.Summary) : List String :=
  ["✅ Formula is valid", "   Formula: " ++ formula,
    "   Tokens:  " ++ toString s.tokens.length] ++
  (if s.columns.isEmpty then [] else ["   Columns: " ++ ", ".intercalate s.columns]) ++
  (if s.aggregates.isEmpty then [] else ["   Aggregates: " ++ ", ".intercalate s.aggregates]) ++
  ["   RPN:     " ++ s.rpn]

/-- An aggregate written as kind, column and perhaps an output column between colons. -/
def aggregateOfSpec (percentile? : Option Float) (spec : String) :
    Except Error AggregateConfig := do
  let (kind, column, output) ← match spec.splitOn ":" with
    | kind :: column :: rest =>
      pure (Text.trim kind, Text.trim column, Text.trim (":".intercalate rest))
    | _ => throw (.invalid (.aggregateSpec spec))
  if column.isEmpty then throw (.invalid (.aggregateSpec spec))
  let kind ← AggregateKind.parse kind
  return { column, kind, output? := if output.isEmpty then none else some output, percentile? }

/-- An aggregate of a specification with its column resolved. -/
def resolvedAggregate (available : List String) (percentile? : Option Float)
    (spec : String) : Except Error AggregateConfig := do
  let config ← aggregateOfSpec percentile? spec
  let column ← Chart.resolveIn available config.column
  return { config with column }

def shown (json : Bool) (document : Document) (text : List String) : String :=
  if json then jsonText document else lines text

def processText (json : Bool) (path : String) (request : ChartRequest) :
    Except Error String := do
  let chart ← request.process
  return shown json chart.toDocument (chartLines path chart)

def explainText (json : Bool) (request : ChartRequest) : Except Error String := do
  let breakdown ← Breakdown.describe request.rows request.mapping
  return shown json breakdown.toDocument (breakdownLines breakdown)

def aggregateText (json : Bool) (rows : Dataset) (reference : String) (kind : AggregateKind)
    (percentile? : Option Float) : Except Error String := do
  let column ← Chart.resolveIn (columns rows) reference
  let value := Aggregate.ofRows rows column kind percentile?
  return shown json
    (.record [("column", .text column), ("kind", kind.toDocument), ("value", .ofValue value)])
    ["   " ++ callText kind column ++ " = " ++ resultText value]

def groupText (json : Bool) (rows : Dataset) (references specs : List String)
    (percentile? : Option Float) (keepOthers : Bool) : Except Error String := do
  let available := columns rows
  let groupColumns ← Chart.resolveEach available references
  let aggregates ← specs.mapM (resolvedAggregate available percentile?)
  let result := groupBy rows { groupColumns, aggregates, keepOthers }
  return shown json (Dataset.toDocument result) (groupLines rows.length groupColumns result)

def pivotText (json : Bool) (rows : Dataset) (index references : List String)
    (value : String) (kind : AggregateKind) (fill? : Option Float) : Except Error String := do
  let available := columns rows
  let indexColumns ← Chart.resolveEach available index
  let pivotColumns ← Chart.resolveEach available references
  let valueColumn ← Chart.resolveIn available value
  let config := { indexColumns, pivotColumns, valueColumn, kind, fill := .ofValue fill? }
  let result := pivot rows config
  return shown json (Dataset.toDocument result) (pivotLines config result)

/-- The outcome of an operation that prints nothing if it fails. -/
def Outcome.ofResult : Except Error String → Outcome
  | .ok out => { out }
  | .error e => { failure? := some e }

/-- An evaluated formula; a failure is shown with the formula. -/
def evalOutcome (json : Bool) (rows : Dataset) (formula output : String)
    (mode : Mode) : Outcome :=
  match Formula.evaluate rows formula output mode with
  | .ok result =>
    { out := shown json (Dataset.toDocument result) (evaluationLines formula output mode result) }
  | .error e =>
    { err := if json then "" else lines ["❌ Formula failed", formulaFailure formula e]
      failure? := some e }

/-- A checked formula; a refusal is shown with the formula. -/
def validateOutcome (json : Bool) (formula : String) (available : List String) : Outcome :=
  match Formula.validate formula available with
  | .ok summary => { out := shown json summary.toDocument (summaryLines formula summary) }
  | .error e =>
    { out := if json then "" else lines ["❌ Formula is invalid", formulaFailure formula e]
      failure? := some e }

def afterLoading {m : Type → Type} [Monad m] {α : Type} (loading : ExceptT Error m α)
    (outcome : α → Outcome) : m Outcome := do
  match ← loading.run with
  | .ok loaded => return outcome loaded
  | .error e => return { failure? := some e }

/-- What an invocation asks for, done. -/
def run {m : Type → Type} [Monad m] (read : FileReader m) (invocation : Invocation) :
    m Outcome :=
  let json := invocation.json
  match invocation.action with
  | .process request =>
    afterLoading (read.chartRequest request) fun r => .ofResult (processText json request r)
  | .explain request =>
    afterLoading (read.chartRequest request) fun r => .ofResult (explainText json r)
  | .eval data formula output mode =>
    afterLoading (read.dataset data) fun rows => evalOutcome json rows formula output mode
  | .aggregate data column kind percentile? =>
    afterLoading (read.dataset data) fun rows =>
      .ofResult (aggregateText json rows column kind percentile?)
  | .group data references specs percentile? keepOthers =>
    afterLoading (read.dataset data) fun rows =>
      .ofResult (groupText json rows references specs percentile? keepOthers)
  | .pivot data index references value kind fill? =>
    afterLoading (read.dataset data) fun rows =>
      .ofResult (pivotText json rows index references value kind fill?)
  | .validate formula available => return validateOutcome json formula available

def versionText : String := lines ["chartcalc " ++ version]

end Tabular.Command

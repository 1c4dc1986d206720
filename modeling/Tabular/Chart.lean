import Tabular.Chart.Mapping
import Tabular.Formula
import Tabular.Grouping

/-!
# Chart rows

`Chart.process` turns a dataset, a chart type and a mapping into the rows the chart
draws, with metadata on what was computed. Grouped charts aggregate each value
column into a column of its own name.
-/
namespace Tabular

/-- What was computed for a chart. -/
structure ChartMetadata where
  chartType : String
  inputRowCount : Nat
  resultRowCount : Nat
  aggregation? : Option AggregateKind := none
  groupedBy? : Option (List String) := none
  derivedMetrics? : Option (List String) := none
  formula? : Option String := none
  deriving DecidableEq

/-- The rows a chart draws, and what was computed for them. -/
structure ChartData where
  rows : Dataset
  metadata : ChartMetadata

namespace Chart

/-- Rows on their way to a chart, with the part of its metadata that is known. -/
structure Progress where
  rows : Dataset
  aggregation? : Option AggregateKind := none
  groupedBy? : Option (List String) := none
  derivedMetrics? : Option (List String) := none
  formula? : Option String := none

/-- The column a reference means among those of some rows. -/
def resolveIn (available : List String) (reference : String) : Except Error String :=
  require (resolve reference available) reference available

def resolveEach (available : List String) (references : List String) :
    Except Error (List String) :=
  references.mapM (resolveIn available)

def resolveOption (available : List String) : Option String → Except Error (Option String)
  | none => .ok none
  | some reference => (resolveIn available reference).map some

/-- Rows sorted by the column that `sortBy` means, else by `column?`, and cut to the
limit. Without a sort column they keep their order. -/
def sortAndCut [Calendar] (mapping : ChartMapping) (column? : Option String) (order : SortOrder)
    (rows : Dataset) : Except Error Dataset := do
  let column? ← match mapping.sortBy? with
    | some reference => resolveOption (columns rows) (some reference)
    | none => pure column?
  let sorted := match column? with
    | some column => Dataset.sort rows column (mapping.sortOrder?.getD order)
    | none => rows
  return match mapping.limit? with
    | some limit => sorted.take limit
    | none => sorted

/-- Rows with the formula's column and those of the derived metrics. -/
def withComputed (rows : Dataset) (mapping : ChartMapping) : Except Error Progress := do
  let calculated ← match mapping.activeFormula? with
    | some formula =>
      Formula.evaluate rows formula mapping.output (mapping.formulaMode?.getD .rowWise)
    | none => pure rows
  let derived ← Metric.applyAll calculated mapping.derivedMetrics
  return {
    rows := derived
    formula? := mapping.activeFormula?
    derivedMetrics? :=
      if mapping.derivedMetrics.isEmpty then none
      else some (mapping.derivedMetrics.map MetricConfig.output) }

/-- The column the formula wrote, if there was one. -/
def formulaColumn? (mapping : ChartMapping) : Option String :=
  mapping.activeFormula?.map fun _ => mapping.output

/-- Rows grouped, every value column aggregated into a column of the same name. -/
def aggregateGroups (progress : Progress) (groups values : List String) (kind : AggregateKind)
    (percentile? : Option Float) : Progress :=
  let aggregates := values.map fun column =>
    { column, kind, output? := some column, percentile? : AggregateConfig }
  { progress with
    rows := groupBy progress.rows { groupColumns := groups, aggregates }
    groupedBy? := some groups
    aggregation? := some kind }

def arrange [Calendar] (mapping : ChartMapping) (column? : Option String) (order : SortOrder)
    (progress : Progress) : Except Error Progress := do
  let rows ← sortAndCut mapping column? order progress.rows
  return { progress with rows }

/-- One figure. A formula wins over a column, and yields one value unless the
mapping says otherwise; without either the rows pass through. -/
def scorecard (rows : Dataset) (mapping : ChartMapping) : Except Error Progress := do
  match mapping.activeFormula? with
  | some formula =>
    let rows ← Formula.evaluate rows formula mapping.output
      (mapping.formulaMode?.getD .datasetWise)
    return { rows, formula? := some formula }
  | none =>
    match mapping.figure? with
    | none => return { rows }
    | some reference =>
      let column ← resolveIn (columns rows) reference
      let kind := mapping.aggregation?.getD .sum
      let value := Aggregate.ofRows rows column kind mapping.percentile?
      return { rows := [Row.empty.insert column (.ofValue value)], aggregation? := some kind }

/-- Bars: values summed per category. -/
def bars [Calendar] (rows : Dataset) (mapping : ChartMapping) :
    Except Error Progress := do
  let prepared ← withComputed rows mapping
  let available := columns prepared.rows
  let categories ← resolveEach available mapping.categories
  if categories.isEmpty then arrange mapping none .asc prepared
  else
    let values ←
      if !mapping.yAxis.isEmpty then resolveEach available mapping.yAxis
      else match mapping.value? with
        | some reference => resolveEach available [reference]
        | none => pure (formulaColumn? mapping).toList
    let kind := mapping.aggregation?.getD .sum
    arrange mapping none .asc (aggregateGroups prepared categories values kind mapping.percentile?)

/-- The group columns of a series: those named, or the x axis if values are to be
aggregated. -/
def lineGroups (available : List String) (mapping : ChartMapping) :
    Except Error (List String) :=
  if !mapping.groupBy.isEmpty then resolveEach available mapping.groupBy
  else if mapping.aggregation?.isSome then resolveEach available mapping.xAxis?.toList
  else .ok []

/-- Lines and areas: rows as they are, or values averaged per group. -/
def lines [Calendar] (rows : Dataset) (mapping : ChartMapping) :
    Except Error Progress := do
  let prepared ← withComputed rows mapping
  let available := columns prepared.rows
  let groups ← lineGroups available mapping
  if groups.isEmpty then arrange mapping none .asc prepared
  else
    let axes ← resolveEach available mapping.yAxis
    let values ←
      if axes.isEmpty then resolveEach available mapping.value?.toList else pure axes
    let values := match formulaColumn? mapping with
      | some column => Formula.appendNew column values
      | none => values
    let kind := mapping.aggregation?.getD .avg
    arrange mapping none .asc (aggregateGroups prepared groups values kind mapping.percentile?)

/-- Points: rows as they are, or both axes averaged per group. -/
def points [Calendar] (rows : Dataset) (mapping : ChartMapping) :
    Except Error Progress := do
  let prepared ← withComputed rows mapping
  let available := columns prepared.rows
  if mapping.groupBy.isEmpty then arrange mapping none .asc prepared
  else
    let groups ← resolveEach available mapping.groupBy
    let x ← resolveEach available mapping.xAxis?.toList
    let ys ← resolveEach available mapping.yAxis
    let values := ys.foldl (fun values y => Formula.appendNew y values) x
    let kind := mapping.aggregation?.getD .avg
    arrange mapping none .asc (aggregateGroups prepared groups values kind mapping.percentile?)

/-- Slices: one value summed per category, the largest first. Without a category or
a value the rows pass through. -/
def slices [Calendar] (rows : Dataset) (mapping : ChartMapping) :
    Except Error Progress := do
  let prepared ← withComputed rows mapping
  let available := columns prepared.rows
  let categories ← resolveEach available mapping.categories
  let value? ← match mapping.value?.or mapping.yAxis.head? with
    | some reference => resolveOption available (some reference)
    | none => pure (formulaColumn? mapping)
  match value? with
  | none => arrange mapping none .desc prepared
  | some value =>
    if categories.isEmpty then arrange mapping none .desc prepared
    else
      let kind := mapping.aggregation?.getD .sum
      arrange mapping (some value) .desc
        (aggregateGroups prepared categories [value] kind mapping.percentile?)

/-- The rows of a chart over a dataset that is not empty. -/
def compute [Calendar] (rows : Dataset) (mapping : ChartMapping) :
    ChartType → Except Error Progress
  | .scorecard => scorecard rows mapping
  | .bar => bars rows mapping
  | .column => bars rows mapping
  | .line => lines rows mapping
  | .area => lines rows mapping
  | .scatter => points rows mapping
  | .pie => slices rows mapping
  | .donut => slices rows mapping
  | .unsupported _ => .ok { rows }

/-- The rows a chart draws, with metadata. An empty dataset has an empty chart. -/
def process [Calendar] (rows : Dataset) (chartType : ChartType) (mapping : ChartMapping) :
    Except Error ChartData := do
  let done ← if rows.isEmpty then pure { rows := [] } else compute rows mapping chartType
  return {
    rows := done.rows
    metadata := {
      chartType := chartType.name
      inputRowCount := rows.length
      resultRowCount := done.rows.length
      aggregation? := done.aggregation?
      groupedBy? := done.groupedBy?
      derivedMetrics? := done.derivedMetrics?
      formula? := done.formula? } }

end Chart
end Tabular

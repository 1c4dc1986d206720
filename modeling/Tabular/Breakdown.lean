import Tabular.Chart

/-!
# Calculation breakdowns

What a scorecard computes, from which columns and over how many values.
-/
namespace Tabular

/-- The account of one calculation. -/
structure Breakdown where
  expression : String
  columns : List String
  samples : List (String × List Float)
  valueCount : Nat
  result : Option Float
  aggregates : List Formula.AggregateResult := []

namespace Breakdown

/-- Put samples at their place by name, in place of those of the same name. -/
def insertSamples (name : String) (values : List Float) :
    List (String × List Float) → List (String × List Float)
  | [] => [(name, values)]
  | (n, vs) :: rest =>
    if name < n then (name, values) :: (n, vs) :: rest
    else if name = n then (name, values) :: rest
    else (n, vs) :: insertSamples name values rest

/-- The first values of each column, sorted by column name. -/
def samplesOf (rows : Dataset) (columns : List String) : List (String × List Float) :=
  columns.foldl
    (fun table c => insertSamples c ((numbers rows c).take Limits.sampleSize) table) []

def countOf (rows : Dataset) (columns : List String) : Nat :=
  (columns.map fun c => (numbers rows c).length).foldl (· + ·) 0

/-- The columns a compiled formula reads, inside aggregate calls and outside. -/
def formulaColumns (compiled : Formula.Compiled) : List String :=
  (compiled.aggregates.map Formula.AggregateResult.column ++ compiled.reads).eraseDups

/-- The calculation a mapping asks for. A formula has a result only if it folds to
one value for the dataset. -/
def describe (rows : Dataset) (mapping : ChartMapping) : Except Error Breakdown := do
  match mapping.activeFormula? with
  | some formula =>
    let compiled ← Formula.Compiled.compile formula rows
    let columns := formulaColumns compiled
    let result ←
      if compiled.isConstant then compiled.onDataset.mapError .eval else pure none
    return {
      expression := formula
      columns
      samples := samplesOf rows columns
      valueCount := countOf rows columns
      result
      aggregates := compiled.aggregates }
  | none =>
    match mapping.figure? with
    | none => throw (.invalid .nothingToDescribe)
    | some reference =>
      let column ← Chart.resolveIn (Tabular.columns rows) reference
      let kind := mapping.aggregation?.getD .sum
      return {
        expression := Text.upper kind.name ++ "(" ++ column ++ ")"
        columns := [column]
        samples := samplesOf rows [column]
        valueCount := countOf rows [column]
        result := Aggregate.ofRows rows column kind mapping.percentile? }

end Breakdown
end Tabular

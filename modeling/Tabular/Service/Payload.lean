import Tabular.Document.Settings

/-!
# Bodies of requests

What the endpoints read out of a body. A chart request is read as it is from a file.
-/
namespace Tabular.Service

/-- A calculation to describe. -/
structure Explanation where
  rows : Dataset := []
  mapping : ChartMapping := {}

namespace Explanation

def fields [Codec] : List (Decoder.Field Explanation) := [
  .optional ["data"] Dataset.ofDocument fun r v => { r with rows := v },
  .required ["mapping"] ChartMapping.ofDocument fun r v => { r with mapping := v }]

/-- A calculation to describe, of a document. -/
def ofDocument [Codec] : Decoder Explanation := Codec.record fields {}

end Explanation

/-- A formula to check against the columns of some rows, or against given ones. -/
structure Check where
  formula : String
  columns : List String := []
  rows? : Option Dataset := none

namespace Check

def fields [Codec] : List (Decoder.Field Check) := [
  .required ["formula"] Codec.text fun r v => { r with formula := v },
  .optional ["columns"] (Codec.list Codec.text) fun r v => { r with columns := v },
  .optional ["data"] (Codec.option Dataset.ofDocument) fun r v => { r with rows? := v }]

/-- A formula to check, of a document. -/
def ofDocument [Codec] : Decoder Check := Codec.record fields { formula := "" }

/-- The columns to check against; rows win over given columns. -/
def available (c : Check) : List String :=
  match c.rows? with
  | some rows => Tabular.columns rows
  | none => c.columns

end Check

/-- A formula to evaluate over rows. -/
structure Evaluation where
  rows : Dataset
  formula : String
  output : String := "result"
  mode : Formula.Mode := .rowWise

namespace Evaluation

def fields [Codec] : List (Decoder.Field Evaluation) := [
  .required ["data"] Dataset.ofDocument fun r v => { r with rows := v },
  .required ["formula"] Codec.text fun r v => { r with formula := v },
  .optional ["alias"] Codec.text fun r v => { r with output := v },
  .optional ["mode"] Formula.Mode.ofDocument fun r v => { r with mode := v }]

/-- A formula to evaluate, of a document. -/
def ofDocument [Codec] : Decoder Evaluation := Codec.record fields { rows := [], formula := "" }

end Evaluation

/-- A column to aggregate. -/
structure Aggregation where
  rows : Dataset
  column : String
  kind : AggregateKind
  percentile? : Option Float := none

namespace Aggregation

def fields [Codec] : List (Decoder.Field Aggregation) := [
  .required ["data"] Dataset.ofDocument fun r v => { r with rows := v },
  .required ["column"] Codec.text fun r v => { r with column := v },
  .required ["kind"] AggregateKind.ofDocument fun r v => { r with kind := v },
  .optional ["percentile"] (Codec.option Codec.float) fun r v => { r with percentile? := v }]

/-- A column to aggregate, of a document. -/
def ofDocument [Codec] : Decoder Aggregation :=
  Codec.record fields { rows := [], column := "", kind := .sum }

end Aggregation
end Tabular.Service

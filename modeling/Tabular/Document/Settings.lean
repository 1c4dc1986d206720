import Tabular.Chart.Request
import Tabular.Document.Table
import Tabular.Pivot

/-!
# Settings in documents

How kinds, configurations, mappings and chart requests are read and written. Fields
are written in the order in which they are declared, which is also their order where
a record is given as a list. Fields without a value are left out where that reads
back the same.
-/
namespace Tabular

namespace AggregateKind

def ofDocument [Codec] : Decoder AggregateKind := Codec.named ofName?

def toDocument (kind : AggregateKind) : Document := .text kind.name

end AggregateKind

namespace MetricKind

/-- A kind by its own name, as written. -/
def ofDocument [Codec] : Decoder MetricKind := Codec.word fun s => all.find? (·.name == s)

def toDocument (kind : MetricKind) : Document := .text kind.name

end MetricKind

namespace SortOrder

def name : SortOrder → String
  | asc => "asc"
  | desc => "desc"

def ofName? (s : String) : Option SortOrder :=
  if s = "asc" ∨ s = "ascending" then some asc
  else if s = "desc" ∨ s = "descending" then some desc
  else none

/-- An order by its word, as written. -/
def ofDocument [Codec] : Decoder SortOrder := Codec.word ofName?

def toDocument (order : SortOrder) : Document := .text order.name

end SortOrder

namespace Formula.Mode

def ofWord? (s : String) : Option Mode :=
  if s = "row_wise" ∨ s = "row" then some rowWise
  else if s = "dataset_wise" ∨ s = "dataset" then some datasetWise
  else none

/-- A mode by its word, as written. -/
def ofDocument [Codec] : Decoder Mode := Codec.word ofWord?

def toDocument (mode : Mode) : Document := .text mode.name

end Formula.Mode

namespace ChartType

def ofDocument [Codec] : Decoder ChartType := fun document => (Codec.text document).map ofName

def toDocument (chartType : ChartType) : Document := .text chartType.name

end ChartType

namespace AggregateConfig

def fields [Codec] : List (Decoder.Field AggregateConfig) := [
  .required ["column"] Codec.text fun c v => { c with column := v },
  .required ["kind"] AggregateKind.ofDocument fun c v => { c with kind := v },
  .optional ["alias"] (Codec.option Codec.text) fun c v => { c with output? := v },
  .optional ["percentile"] (Codec.option Codec.float) fun c v => { c with percentile? := v }]

def ofDocument [Codec] : Decoder AggregateConfig :=
  Codec.record fields { column := "", kind := .sum }

def toDocument (c : AggregateConfig) : Document :=
  .record ([("column", .text c.column), ("kind", c.kind.toDocument)] ++
    Document.optional "alias" (c.output?.map .text) ++
    Document.optional "percentile" (c.percentile?.map .float))

end AggregateConfig

namespace GroupConfig

def fields [Codec] : List (Decoder.Field GroupConfig) := [
  .required ["groupColumns"] (Codec.list Codec.text) fun c v => { c with groupColumns := v },
  .optional ["aggregations"] (Codec.list AggregateConfig.ofDocument)
    fun c v => { c with aggregates := v },
  .optional ["keepOriginalColumns"] Codec.bool fun c v => { c with keepOthers := v }]

def ofDocument [Codec] : Decoder GroupConfig := Codec.record fields { groupColumns := [] }

def toDocument (c : GroupConfig) : Document :=
  .record [("groupColumns", Document.texts c.groupColumns),
    ("aggregations", .list (c.aggregates.map AggregateConfig.toDocument)),
    ("keepOriginalColumns", .bool c.keepOthers)]

end GroupConfig

namespace PivotConfig

def fields [Codec] : List (Decoder.Field PivotConfig) := [
  .required ["indexColumns"] (Codec.list Codec.text) fun c v => { c with indexColumns := v },
  .required ["pivotColumns"] (Codec.list Codec.text) fun c v => { c with pivotColumns := v },
  .required ["valueColumn"] Codec.text fun c v => { c with valueColumn := v },
  .optional ["kind"] AggregateKind.ofDocument fun c v => { c with kind := v },
  .optional ["fillValue"] Cell.ofDocument fun c v => { c with fill := v }]

def ofDocument [Codec] : Decoder PivotConfig :=
  Codec.record fields { indexColumns := [], pivotColumns := [], valueColumn := "" }

def toDocument (c : PivotConfig) : Document :=
  .record [("indexColumns", Document.texts c.indexColumns),
    ("pivotColumns", Document.texts c.pivotColumns),
    ("valueColumn", .text c.valueColumn), ("kind", c.kind.toDocument),
    ("fillValue", c.fill.toDocument)]

end PivotConfig

namespace MetricConfig

def fields [Codec] : List (Decoder.Field MetricConfig) := [
  .required ["kind", "type"] MetricKind.ofDocument fun c v => { c with kind := v },
  .required ["alias"] Codec.text fun c v => { c with output := v },
  .optional ["numerator"] (Codec.option Codec.text) fun c v => { c with numerator? := v },
  .optional ["denominator"] (Codec.option Codec.text) fun c v => { c with denominator? := v },
  .optional ["column"] (Codec.option Codec.text) fun c v => { c with column? := v },
  .optional ["window"] (Codec.option Codec.nat) fun c v => { c with window? := v },
  .optional ["periods"] (Codec.option Codec.nat) fun c v => { c with periods? := v }]

def ofDocument [Codec] : Decoder MetricConfig :=
  Codec.record fields { kind := .ratio, output := "" }

def toDocument (c : MetricConfig) : Document :=
  .record ([("kind", c.kind.toDocument), ("alias", .text c.output)] ++
    Document.optional "numerator" (c.numerator?.map .text) ++
    Document.optional "denominator" (c.denominator?.map .text) ++
    Document.optional "column" (c.column?.map .text) ++
    Document.optional "window" (c.window?.map fun n => .int n) ++
    Document.optional "periods" (c.periods?.map fun n => .int n))

end MetricConfig

namespace ChartMapping

/-- A text, or a list of texts. -/
def oneOrMany [Codec] : Decoder (List String) := Codec.firstOf [
  fun document => (Codec.text document).map fun s => [s],
  Codec.list Codec.text]

/-- References to columns: nothing, one or a list, of which blank ones are dropped. -/
def references [Codec] : Decoder (List String) := fun document =>
  (Codec.option oneOrMany document).map fun values? =>
    (values?.getD []).filter fun s => !Text.isBlankText s

def fields [Codec] : List (Decoder.Field ChartMapping) := [
  .optional ["xAxis"] (Codec.option Codec.text) fun m v => { m with xAxis? := v },
  .optional ["yAxis"] references fun m v => { m with yAxis := v },
  .optional ["category"] references fun m v => { m with category := v },
  .optional ["value"] (Codec.option Codec.text) fun m v => { m with value? := v },
  .optional ["metric"] (Codec.option Codec.text) fun m v => { m with metric? := v },
  .optional ["aggregation"] (Codec.option AggregateKind.ofDocument)
    fun m v => { m with aggregation? := v },
  .optional ["groupBy"] references fun m v => { m with groupBy := v },
  .optional ["formula"] (Codec.option Codec.text) fun m v => { m with formula? := v },
  .optional ["formulaAlias"] (Codec.option Codec.text) fun m v => { m with formulaAlias? := v },
  .optional ["formulaMode"] (Codec.option Formula.Mode.ofDocument)
    fun m v => { m with formulaMode? := v },
  .optional ["sortBy"] (Codec.option Codec.text) fun m v => { m with sortBy? := v },
  .optional ["sortOrder"] (Codec.option SortOrder.ofDocument) fun m v => { m with sortOrder? := v },
  .optional ["limit"] (Codec.option Codec.nat) fun m v => { m with limit? := v },
  .optional ["percentile"] (Codec.option Codec.float) fun m v => { m with percentile? := v },
  .optional ["derivedMetrics"] (Codec.list MetricConfig.ofDocument)
    fun m v => { m with derivedMetrics := v }]

def ofDocument [Codec] : Decoder ChartMapping := Codec.record fields {}

/-- References in a document, left out if there are none. -/
def referenceField (name : String) (references : List String) : List (String × Document) :=
  Document.optionalList name (references.map .text)

def toDocument (m : ChartMapping) : Document :=
  .record (Document.optional "xAxis" (m.xAxis?.map .text) ++
    referenceField "yAxis" m.yAxis ++
    referenceField "category" m.category ++
    Document.optional "value" (m.value?.map .text) ++
    Document.optional "metric" (m.metric?.map .text) ++
    Document.optional "aggregation" (m.aggregation?.map AggregateKind.toDocument) ++
    referenceField "groupBy" m.groupBy ++
    Document.optional "formula" (m.formula?.map .text) ++
    Document.optional "formulaAlias" (m.formulaAlias?.map .text) ++
    Document.optional "formulaMode"
      (m.formulaMode?.map Formula.Mode.toDocument) ++
    Document.optional "sortBy" (m.sortBy?.map .text) ++
    Document.optional "sortOrder" (m.sortOrder?.map SortOrder.toDocument) ++
    Document.optional "limit" (m.limit?.map fun n => .int n) ++
    Document.optional "percentile" (m.percentile?.map .float) ++
    Document.optionalList "derivedMetrics" (m.derivedMetrics.map MetricConfig.toDocument))

end ChartMapping

namespace ChartRequest

def fields [Codec] : List (Decoder.Field ChartRequest) := [
  .required ["chartType", "type", "chart"] ChartType.ofDocument
    fun r v => { r with chartType := v },
  .optional ["mapping"] ChartMapping.ofDocument fun r v => { r with mapping := v },
  .optional ["data"] (Codec.option Dataset.ofDocument) fun r v => { r with data? := v },
  .optional ["dataFile"] (Codec.option Codec.text) fun r v => { r with dataFile? := v }]

def ofDocument [Codec] : Decoder ChartRequest := Codec.record fields { chartType := .scorecard }

def toDocument (r : ChartRequest) : Document :=
  .record ([("chartType", r.chartType.toDocument), ("mapping", r.mapping.toDocument)] ++
    Document.optional "data" (r.data?.map Dataset.toDocument) ++
    Document.optional "dataFile" (r.dataFile?.map .text))

end ChartRequest
end Tabular

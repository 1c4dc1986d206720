import Tabular.Breakdown
import Tabular.Document.Settings

/-!
# Results in documents

How charts, breakdowns and formula summaries are written.
-/
namespace Tabular

def Document.count (n : Nat) : Document := .int n

/-- Metadata of a chart in a document; what was not computed is left out. -/
def ChartMetadata.toDocument (m : ChartMetadata) : Document :=
  .record ([("chartType", .text m.chartType),
      ("originalRowCount", .count m.inputRowCount),
      ("resultRowCount", .count m.resultRowCount)] ++
    Document.optional "aggregationKind" (m.aggregation?.map AggregateKind.toDocument) ++
    Document.optional "groupedBy" (m.groupedBy?.map Document.texts) ++
    Document.optional "derivedMetricsApplied" (m.derivedMetrics?.map Document.texts) ++
    Document.optional "formula" (m.formula?.map .text))

def ChartData.toDocument (chart : ChartData) : Document :=
  .record [("rows", Dataset.toDocument chart.rows), ("metadata", chart.metadata.toDocument)]

namespace Formula

def Token.toDocument (t : Token) : Document :=
  .record [("kind", .text t.kind.name), ("value", .text t.value), ("offset", .count t.offset)]

def AggregateResult.toDocument (a : AggregateResult) : Document :=
  .record [("alias", .text a.name), ("function", .text a.function),
    ("column", .text a.column), ("value", .ofValue a.value)]

def Summary.toDocument (s : Summary) : Document :=
  .record [("tokens", .list (s.tokens.map Token.toDocument)),
    ("columns", Document.texts s.columns), ("aggregates", Document.texts s.aggregates),
    ("rpn", .text s.rpn)]

end Formula

/-- A breakdown in a document; aggregates are left out if the formula has none. -/
def Breakdown.toDocument (b : Breakdown) : Document :=
  .record ([("expression", .text b.expression), ("columns", Document.texts b.columns),
      ("sampleValues", .record (b.samples.map fun (name, values) =>
        (name, .list (values.map .float)))),
      ("valueCount", .count b.valueCount), ("result", .ofValue b.result)] ++
    Document.optionalList "aggregates"
      (b.aggregates.map Formula.AggregateResult.toDocument))

end Tabular

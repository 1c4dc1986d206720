import Tabular.Formula.Mode
import Tabular.Metric
import Tabular.Sorting

/-!
# Chart types and mappings

A mapping binds the roles of a chart to columns. Its column names come from users,
so they are references: only what they resolve to is ever used as a column.
-/
namespace Tabular

/-- A kind of chart. Rows of an unsupported one pass through unchanged. -/
inductive ChartType
  | scorecard
  | bar
  | column
  | line
  | area
  | scatter
  | pie
  | donut
  | unsupported (name : String)
  deriving DecidableEq

namespace ChartType

/-- The supported kinds, in the order in which they are listed. -/
def supported : List ChartType := [scorecard, bar, column, line, area, scatter, pie, donut]

def name : ChartType → String
  | scorecard => "scorecard"
  | bar => "bar"
  | column => "column"
  | line => "line"
  | area => "area"
  | scatter => "scatter"
  | pie => "pie"
  | donut => "donut"
  | unsupported name => name

/-- The names a chart type is read from: its own and its synonym. -/
def spellings : ChartType → List String
  | scorecard => ["scorecard", "kpi"]
  | donut => ["donut", "doughnut"]
  | other => [other.name]

/-- The chart type a name means, in any letter case and with white space around it.
Any other name is kept as it is, as an unsupported type. -/
def ofName (text : String) : ChartType :=
  let name := Text.lower (Text.trim text)
  (supported.find? fun t => t.spellings.contains name).getD (unsupported text)

def isSupported : ChartType → Bool
  | unsupported _ => false
  | _ => true

end ChartType

/-- Roles of a chart bound to columns, and how to compute them. -/
structure ChartMapping where
  xAxis? : Option String := none
  yAxis : List String := []
  category : List String := []
  value? : Option String := none
  metric? : Option String := none
  aggregation? : Option AggregateKind := none
  groupBy : List String := []
  formula? : Option String := none
  formulaAlias? : Option String := none
  formulaMode? : Option Formula.Mode := none
  sortBy? : Option String := none
  sortOrder? : Option SortOrder := none
  limit? : Option Nat := none
  percentile? : Option Float := none
  derivedMetrics : List MetricConfig := []
  deriving DecidableEq

namespace ChartMapping

/-- The formula, if one is set and not blank. -/
def activeFormula? (m : ChartMapping) : Option String :=
  m.formula?.filter fun f => !Text.isBlankText f

def output (m : ChartMapping) : String :=
  (m.formulaAlias?.filter fun a => !Text.isBlankText a).getD "formula_value"

/-- Category references: the categories, else the x axis. -/
def categories (m : ChartMapping) : List String :=
  if m.category.isEmpty then m.xAxis?.toList else m.category

/-- The reference to the column of a single figure: the metric, else the value, else
the first y axis. -/
def figure? (m : ChartMapping) : Option String := m.metric?.or (m.value?.or m.yAxis.head?)

end ChartMapping
end Tabular

import Tabular.Chart

/-!
# Chart requests

A chart to compute: its type, its mapping and its rows, which are given with it or
named as a file.
-/
namespace Tabular

/-- A chart type, a mapping and where the rows are. -/
structure ChartRequest where
  chartType : ChartType
  mapping : ChartMapping := {}
  data? : Option Dataset := none
  dataFile? : Option String := none
  deriving DecidableEq

namespace ChartRequest

def rows (request : ChartRequest) : Dataset := request.data?.getD []

def process [Calendar] (request : ChartRequest) : Except Error ChartData :=
  Chart.process request.rows request.chartType request.mapping

end ChartRequest
end Tabular

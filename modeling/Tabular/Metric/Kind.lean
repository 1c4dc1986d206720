import Tabular.Text.Case

/-!
# Kinds of derived metrics

Three kinds compare two columns of one row; the others read the rows before it.
-/
namespace Tabular

/-- A way to compute a new column from existing ones. -/
inductive MetricKind
  | ratio
  | percentage
  | difference
  | growthRate
  | percentChange
  | runningTotal
  | movingAverage
  | periodOverPeriod
  | yearOverYear
  deriving DecidableEq

namespace MetricKind

def all : List MetricKind :=
  [ratio, percentage, difference, growthRate, percentChange, runningTotal, movingAverage,
    periodOverPeriod, yearOverYear]

def name : MetricKind → String
  | ratio => "ratio"
  | percentage => "percentage"
  | difference => "difference"
  | growthRate => "growth_rate"
  | percentChange => "percent_change"
  | runningTotal => "running_total"
  | movingAverage => "moving_average"
  | periodOverPeriod => "period_over_period"
  | yearOverYear => "year_over_year"

/-- The names a kind is read from: its own and its synonym. -/
def spellings : MetricKind → List String
  | ratio => ["ratio"]
  | percentage => ["percentage", "percent"]
  | difference => ["difference", "diff"]
  | growthRate => ["growth_rate", "growth"]
  | percentChange => ["percent_change", "pct_change"]
  | runningTotal => ["running_total", "cumulative_sum"]
  | movingAverage => ["moving_average", "rolling_average"]
  | periodOverPeriod => ["period_over_period", "pop"]
  | yearOverYear => ["year_over_year", "yoy"]

/-- A name as it is compared: trimmed, in lower case, with underscores for hyphens
and spaces. -/
def normalize (text : String) : String :=
  Text.replaceChar ' ' '_' (Text.replaceChar '-' '_' (Text.lower (Text.trim text)))

/-- The kind a name means, in any letter case. -/
def ofName? (text : String) : Option MetricKind :=
  all.find? fun kind => kind.spellings.contains (normalize text)

/-- The kind reads a numerator and a denominator in place of one column. -/
def comparesColumns : MetricKind → Bool
  | ratio => true
  | percentage => true
  | difference => true
  | _ => false

end MetricKind
end Tabular

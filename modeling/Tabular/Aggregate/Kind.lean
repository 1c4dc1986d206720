import Tabular.Limits
import Tabular.Text.Case

/-!
# Kinds of aggregates

The thirteen ways to fold a column's numbers into one.
-/
namespace Tabular

/-- A way to fold a column's numbers into one. -/
inductive AggregateKind
  | sum
  | avg
  | count
  | min
  | max
  | median
  | mode
  | std
  | variance
  | percentile
  | distinct
  | first
  | last
  deriving DecidableEq

namespace AggregateKind

/-- Every kind, in the order in which they are listed. -/
def all : List AggregateKind :=
  [sum, avg, count, min, max, median, mode, std, variance, percentile, distinct, first, last]

def name : AggregateKind → String
  | sum => "sum"
  | avg => "avg"
  | count => "count"
  | min => "min"
  | max => "max"
  | median => "median"
  | mode => "mode"
  | std => "std"
  | variance => "variance"
  | percentile => "percentile"
  | distinct => "distinct"
  | first => "first"
  | last => "last"

/-- The names a kind is read from: its own and its synonyms. -/
def spellings : AggregateKind → List String
  | sum => ["sum", "total"]
  | avg => ["avg", "average", "mean"]
  | count => ["count"]
  | min => ["min", "minimum"]
  | max => ["max", "maximum"]
  | median => ["median"]
  | mode => ["mode"]
  | std => ["std", "stddev", "stdev"]
  | variance => ["variance", "var"]
  | percentile => ["percentile"]
  | distinct => ["distinct", "count_distinct", "unique"]
  | first => ["first"]
  | last => ["last"]

/-- A name as it is compared: trimmed and in lower case. -/
def normalize (text : String) : String := Text.lower (Text.trim text)

/-- The kind a name means, in any letter case and with white space around it. -/
def ofName? (text : String) : Option AggregateKind :=
  all.find? fun kind => kind.spellings.contains (normalize text)

def needsSorting : AggregateKind → Bool
  | median => true
  | mode => true
  | percentile => true
  | _ => false

def rowCeiling (kind : AggregateKind) : Nat :=
  if kind.needsSorting then Limits.sortedRows else Limits.linearRows

end AggregateKind
end Tabular

import Tabular.Aggregate.Kind
import Tabular.Amount

/-!
# Aggregates of one column

Every aggregate of an empty list of numbers but a count is null, and no result is
NaN or infinite. Sums add from the left onto negative zero, so that a sum of
negative zeros keeps their sign.
-/
namespace Tabular

namespace Aggregate

/-- Values added up from the left, onto a given start. -/
def total {α : Type} [Add α] (start : α) (values : List α) : α := values.foldl (· + ·) start

def sum (values : List Float) : Float := total (-0.0) values

def size (values : List Float) : Float := Float.ofNat values.length

def mean (values : List Float) : Float := sum values / size values

/-- The lesser of two doubles; the first of equal ones, and never NaN if one is a
number. -/
def lesser (a b : Float) : Float := if a.isNaN then b else if b < a then b else a

/-- The greater of two doubles; the first of equal ones, and never NaN if one is a
number. -/
def greater (a b : Float) : Float := if a.isNaN then b else if a < b then b else a

def sorted (values : List Float) : List Float :=
  values.mergeSort fun a b => Number.orderKey a ≤ Number.orderKey b

def rank (values : List Float) (i : Nat) : Float := values.getD i Number.nan

/-- The middle value, or the mean of the two in the middle. -/
def median (values : List Float) : Float :=
  let ranked := sorted values
  let middle := values.length / 2
  if values.length % 2 = 0 then (rank ranked (middle - 1) + rank ranked middle) / 2.0
  else rank ranked middle

/-- A table of values and how often each occurred, with one occurrence more. New
values go to the end. -/
def bump (value : Float) : List (Float × Nat) → List (Float × Nat)
  | [] => [(value, 1)]
  | (v, n) :: rest =>
    if Number.countingKey v = Number.countingKey value then (v, n + 1) :: rest
    else (v, n) :: bump value rest

/-- How often each value occurs, in order of first occurrence; both zeros are one
value. -/
def tally (values : List Float) : List (Float × Nat) :=
  values.foldl (fun table v => bump v table) []

/-- The entry with the greatest count, of equal ones the earliest. -/
def leader : List (Float × Nat) → Option (Float × Nat)
  | [] => none
  | entry :: rest => some (rest.foldl (fun best e => if best.2 < e.2 then e else best) entry)

/-- The most frequent value, of equally frequent ones the earliest. -/
def mode (values : List Float) : Option Float := (leader (tally values)).map Prod.fst

def variance (values : List Float) : Float :=
  let m := mean values
  sum (values.map fun v => (v - m) * (v - m)) / size values

/-- A percentile argument in its range: NaN means the middle. -/
def clampPercentile (p : Float) : Float :=
  if p.isNaN then 50.0 else if p < 0.0 then 0.0 else if 100.0 < p then 100.0 else p

def floorRank (x : Float) : Nat := ((Number.parts? x).map Number.Parts.floor).getD 0

def rankBounds (x : Float) : Nat × Nat :=
  let lower := floorRank x
  (lower, if Number.isWhole x then lower else lower + 1)

/-- Linear interpolation between the two sorted values around a percentile. -/
def percentile (values : List Float) (p : Float) : Float :=
  let ranked := sorted values
  if values.length = 1 then rank ranked 0
  else
    let position := clampPercentile p / 100.0 * Float.ofNat (values.length - 1)
    let (lower, upper) := rankBounds position
    let weight := position - Float.ofNat lower
    rank ranked lower + (rank ranked upper - rank ranked lower) * weight

/-- How many different values there are; both zeros are one value. -/
def distinct (values : List Float) : Nat := (tally values).length

/-- A double, unless it is NaN or infinite. -/
def finite? (x : Float) : Option Float := if x.isFinite then some x else none

/-- The aggregate of a non-empty list, which may not be finite. -/
def fold (kind : AggregateKind) (p? : Option Float) (head : Float) (rest : List Float) :
    Option Float :=
  let values := head :: rest
  match kind with
  | .sum => some (sum values)
  | .avg => some (mean values)
  | .count => some (size values)
  | .min => some (values.foldl lesser Number.infinity)
  | .max => some (values.foldl greater (-Number.infinity))
  | .median => some (median values)
  | .mode => mode values
  | .std => some (variance values).sqrt
  | .variance => some (variance values)
  | .percentile => some (percentile values (p?.getD 50.0))
  | .distinct => some (Float.ofNat (distinct values))
  | .first => some head
  | .last => some (rest.getLastD head)

def ofValues (values : List Float) (kind : AggregateKind) (p? : Option Float) :
    Option Float :=
  match kind, values with
  | .count, values => some (size values)
  | .distinct, values => some (Float.ofNat (distinct values))
  | _, [] => none
  | kind, head :: rest => (fold kind p? head rest).bind finite?

/-- The aggregate of a column over rows; rows past the kind's ceiling are not
scanned. -/
def ofRows (rows : Dataset) (column : String) (kind : AggregateKind) (p? : Option Float) :
    Option Float :=
  ofValues (numbers (rows.take kind.rowCeiling) column) kind p?

end Aggregate

/-- One aggregate over one column. -/
structure AggregateConfig where
  column : String
  kind : AggregateKind
  output? : Option String := none
  percentile? : Option Float := none
  deriving DecidableEq

namespace AggregateConfig

/-- The name of the output column: the one set, or the kind and the column. -/
def outputColumn (config : AggregateConfig) : String :=
  config.output?.getD (config.kind.name ++ "_" ++ config.column)

def evaluate (config : AggregateConfig) (rows : Dataset) : Option Float :=
  Aggregate.ofRows rows config.column config.kind config.percentile?

end AggregateConfig
end Tabular

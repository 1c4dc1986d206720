import Tabular.Amount
import Tabular.Error
import Tabular.Reference

/-!
# Derived metrics

A derived metric writes a new column. Row-relative kinds compare two columns of one
row. Sequence-relative kinds read a column from the top, so the order of the rows
matters; none of them looks ahead.
-/
namespace Tabular

/-- A derived metric: its kind, its output column and the columns it reads. -/
structure MetricConfig where
  kind : MetricKind
  output : String
  numerator? : Option String := none
  denominator? : Option String := none
  column? : Option String := none
  window? : Option Nat := none
  periods? : Option Nat := none
  deriving DecidableEq

namespace Metric

/-- The resolved inputs of a metric. -/
inductive Inputs
  | pair (numerator denominator : String)
  | sequence (column : String) (window periods : Nat)
  deriving DecidableEq

/-- The rows in a moving average, unless set. -/
def defaultWindow : Nat := 3

/-- How many rows back a comparison goes, unless set. -/
def defaultPeriods : MetricKind → Nat
  | .yearOverYear => 12
  | _ => 1

def needed (config : MetricConfig) (field : String) (value : Option String) :
    Except Error String :=
  match value with
  | some value => .ok value
  | none => .error (.invalid (.metricLacks config.output config.kind field))

def atLeastOne (config : MetricConfig) (field : String) (value : Nat) : Except Error Nat :=
  if value = 0 then .error (.invalid (.metricFieldZero config.output field)) else .ok value

/-- What a metric reads of a dataset with the given columns. -/
def inputs (config : MetricConfig) (available : List String) : Except Error Inputs := do
  if Text.isBlankText config.output then throw (.invalid (.metricWithoutOutput config.kind))
  if config.kind.comparesColumns then
    let numerator ← needed config "numerator" config.numerator?
    let denominator ← needed config "denominator" config.denominator?
    return .pair (← require (resolve numerator available) numerator available)
      (← require (resolve denominator available) denominator available)
  else
    let column ← needed config "column" config.column?
    let window ← atLeastOne config "window" (config.window?.getD defaultWindow)
    let periods ← atLeastOne config "periods" (config.periods?.getD (defaultPeriods config.kind))
    return .sequence (← require (resolve column available) column available) window periods

/-- A double, if there is one and it is finite. -/
def finite? (x : Option Float) : Option Float := x.filter Float.isFinite

/-- Change against an earlier value in percent; against zero or nothing there is
none. -/
def relativeChange (current previous : Option Float) : Option Float :=
  match current, previous with
  | some c, some p => if p == 0.0 then none else finite? (some ((c - p) / p * 100.0))
  | _, _ => none

/-- A row-relative metric on its two operands; dividing by zero has no value. -/
def ofPair (kind : MetricKind) (n d : Option Float) : Option Float :=
  match n, d with
  | some n, some d =>
    match kind with
    | .difference => finite? (some (n - d))
    | .percentage => if d == 0.0 then none else finite? (some (n / d * 100.0))
    | .ratio => if d == 0.0 then none else finite? (some (n / d))
    | _ => none
  | _, _ => none

/-- A sequence moved back by some places, with nothing in front. -/
def lagged {α : Type} (values : List (Option α)) (places : Nat) : List (Option α) :=
  List.replicate (min places values.length) none ++ values

/-- Sums of the values up to each place; a missing value adds nothing. -/
def runningTotals {α : Type} [Add α] (zero : α) (values : List (Option α)) : List α :=
  go zero values
where
  go (total : α) : List (Option α) → List α
    | [] => []
    | v :: rest => (total + v.getD zero) :: go (total + v.getD zero) rest

/-- Means of the values in a window that slides over a sequence. The sum and the
count of the values in the window are carried along: each place adds the value that
enters and takes away the one that leaves. -/
def movingAverages {α : Type} [Add α] [Sub α] (zero : α) (divide : α → Nat → α)
    (values : List (Option α)) (window : Nat) : List (Option α) :=
  go zero 0 (values.zip (lagged values window))
where
  /-- Means from a sum and a count on, over pairs of entering and leaving values. -/
  go (sum : α) (count : Nat) : List (Option α × Option α) → List (Option α)
    | [] => []
    | (entering, leaving) :: rest =>
      let (sum, count) := match entering with
        | some v => (sum + v, count + 1)
        | none => (sum, count)
      let (sum, count) := match leaving with
        | some v => (sum - v, count - 1)
        | none => (sum, count)
      (if count = 0 then none else some (divide sum count)) :: go sum count rest

def changes (values : List (Option Float)) (places : Nat) : List (Option Float) :=
  values.zipWith relativeChange (lagged values places)

def ofSequence (kind : MetricKind) (values : List (Option Float)) (window periods : Nat) :
    List (Option Float) :=
  match kind with
  | .runningTotal => (runningTotals 0.0 values).map some
  | .movingAverage => movingAverages 0.0 (fun sum n => sum / Float.ofNat n) values window
  | .growthRate => changes values 1
  | .percentChange => changes values 1
  | _ => changes values periods

/-- The values of a planned metric, one per row. -/
def values (kind : MetricKind) (rows : Dataset) : Inputs → List (Option Float)
  | .pair numerator denominator =>
    rows.map fun row => ofPair kind (row.number? numerator) (row.number? denominator)
  | .sequence column window periods =>
    ofSequence kind (rows.map (·.number? column)) window periods

def apply (rows : Dataset) (config : MetricConfig) : Except Error Dataset :=
  if rows.isEmpty then .ok []
  else
    (inputs config (columns rows)).map fun inputs =>
      rows.zipWith (fun row value => row.insert config.output (.ofValue (finite? value)))
        (values config.kind rows inputs)

/-- The rows with every metric's column written, in order; a later metric may read
the columns of the ones before it. -/
def applyAll (rows : Dataset) : List MetricConfig → Except Error Dataset
  | [] => .ok rows
  | config :: rest =>
    match apply rows config with
    | .ok rows => applyAll rows rest
    | .error e => .error e

end Metric
end Tabular

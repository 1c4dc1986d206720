import Tabular.Aggregate.Kind
import Tabular.Formula.EvalError
import Tabular.Formula.ScanError
import Tabular.Metric.Kind

/-!
# Failures

Everything an operation of the engine can fail with. Causes are data; `message`
words them.
-/
namespace Tabular

/-- An argument or a configuration that makes no sense. -/
inductive Invalid
  | unknownMode (name : String)
  | unknownAggregate (name : String)
  | unknownMetric (name : String)
  | metricWithoutOutput (kind : MetricKind)
  | metricLacks (output : String) (kind : MetricKind) (field : String)
  | metricFieldZero (output field : String)
  | nothingToDescribe
  | twoDataSources
  | remoteDataFile
  | aggregateSpec (spec : String)
  deriving DecidableEq

def Invalid.message : Invalid → String
  | unknownMode name =>
    "Unknown evaluation mode '" ++ name ++ "'. Expected 'row' or 'dataset'"
  | unknownAggregate name =>
    "Unknown aggregation '" ++ name ++ "'. Expected one of: " ++
      ", ".intercalate (AggregateKind.all.map AggregateKind.name)
  | unknownMetric name => "Unknown derived metric '" ++ name ++ "'"
  | metricWithoutOutput kind => "Derived metric (" ++ kind.name ++ ") requires an alias"
  | metricLacks output kind field =>
    "Derived metric '" ++ output ++ "' (" ++ kind.name ++ ") requires '" ++ field ++ "'"
  | metricFieldZero output field =>
    "Derived metric '" ++ output ++ "' requires '" ++ field ++ "' of at least 1"
  | nothingToDescribe => "Nothing to describe: set a formula or a metric column"
  | twoDataSources => "Chart request sets both 'data' and 'dataFile'"
  | remoteDataFile => "dataFile is not accepted over HTTP; send rows in 'data'"
  | aggregateSpec spec =>
    "Invalid aggregation '" ++ spec ++ "'. Expected kind:column, e.g. sum:Revenue"

/-- What an operation fails with. A file that cannot be read, or is not a document
of its format or of the wanted shape, has no wording of its own. -/
inductive Error
  | unreadable
  | yaml
  | json
  | scan (cause : Formula.ScanError)
  | columnNotFound (column : String) (available : List String)
  | eval (cause : Formula.EvalError)
  | invalid (cause : Invalid)
  deriving DecidableEq

namespace Error

def message : Error → String
  | unreadable => "IO error"
  | yaml => "YAML parsing error"
  | json => "JSON parsing error"
  | scan cause => cause.message
  | columnNotFound column available =>
    "Column not found: " ++ column ++ ". Available: " ++
      (if available.isEmpty then "(none)" else ", ".intercalate available)
  | eval cause => cause.message
  | invalid cause => "Validation error: " ++ cause.message

/-- The character of a formula a failure is blamed on, if it is about one. -/
def offset? : Error → Option Nat
  | scan cause => some cause.position
  | eval cause => some cause.position
  | _ => none

end Error

/-- A column named by a reference, or the failure that lists the columns there are. -/
def require (found : Option String) (reference : String) (available : List String) :
    Except Error String :=
  match found with
  | some name => .ok name
  | none => .error (.columnNotFound reference available)

theorem require_eq_ok {found : Option String} {reference column : String}
    {available : List String} :
    require found reference available = .ok column ↔ found = some column := by
  cases found with
  | none => exact ⟨fun h => (by cases h), fun h => (by cases h)⟩
  | some name => exact ⟨fun h => (by cases h; rfl), fun h => (by cases h; rfl)⟩

/-- The kind an aggregate's name means, or the failure that lists the kinds. -/
def AggregateKind.parse (text : String) : Except Error AggregateKind :=
  match ofName? text with
  | some kind => .ok kind
  | none => .error (.invalid (.unknownAggregate (normalize text)))

def MetricKind.parse (text : String) : Except Error MetricKind :=
  match ofName? text with
  | some kind => .ok kind
  | none => .error (.invalid (.unknownMetric text))

end Tabular

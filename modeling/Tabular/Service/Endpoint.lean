/-!
# Endpoints

The paths that the service answers on, each with its one method.
-/
namespace Tabular.Service

/-- A thing that the service can be asked for. -/
inductive Endpoint
  | root
  | health
  | version
  | process
  | explain
  | validate
  | evaluate
  | aggregate
  deriving DecidableEq

namespace Endpoint

def listed : List Endpoint := [health, version, process, explain, validate, evaluate, aggregate]

def all : List Endpoint := root :: listed

def path : Endpoint → String
  | root => "/"
  | health => "/health"
  | version => "/version"
  | process => "/api/v1/process"
  | explain => "/api/v1/explain"
  | validate => "/api/v1/formula/validate"
  | evaluate => "/api/v1/formula/evaluate"
  | aggregate => "/api/v1/aggregate"

def takesBody : Endpoint → Bool
  | root => false
  | health => false
  | version => false
  | _ => true

def method (e : Endpoint) : String := if e.takesBody then "POST" else "GET"

def description : Endpoint → String
  | root => ""
  | health => "Health check endpoint"
  | version => "Get server version"
  | process => "Compute chart rows from a chart type, mapping and data"
  | explain => "Describe a scorecard calculation"
  | validate => "Check a formula against a column list"
  | evaluate => "Evaluate a formula over rows"
  | aggregate => "Aggregate one column"

/-- The endpoint at a path, which has to match as a whole. -/
def ofPath? (path : String) : Option Endpoint := all.find? (·.path == path)

end Endpoint
end Tabular.Service

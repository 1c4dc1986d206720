import Tabular.Document.Decoder
import Tabular.Document.Report
import Tabular.Instant
import Tabular.Service.Endpoint
import Tabular.Service.MediaType
import Tabular.Service.Payload
import Tabular.Version

/-!
# The web service

`Service.respond` answers one request. Answers are envelopes: a record that says
whether the request was met, with its id and the data or the failure. A request that
never reaches an endpoint, or whose body it cannot read, gets a status and no
envelope.
-/
namespace Tabular.Service

/-- A request as far as the service looks at it. -/
structure Request where
  method : String
  path : String
  contentType? : Option String := none
  body : String := ""

/-- The answer to a request. -/
structure Reply where
  status : Nat
  body? : Option Document := none

/-- The longest body that is read, in bytes. -/
def bodyLimit : Nat := 2 * 1024 * 1024

def Reply.success (id : String) (data : Document) : Reply :=
  ⟨200, some (.record [("success", .bool true), ("request_id", .text id), ("data", data)])⟩

def statusOf : Error → Nat
  | .unreadable => 400
  | .yaml => 400
  | .json => 400
  | _ => 422

def Reply.failure (id : String) (e : Error) : Reply :=
  ⟨statusOf e, some (.record [("success", .bool false), ("request_id", .text id),
    ("error", .text e.message)])⟩

def Reply.ofResult (id : String) : Except Error Document → Reply
  | .ok data => .success id data
  | .error e => .failure id e

def rootData : Document :=
  .record [("name", .text "chartcalc API Server"), ("version", .text version),
    ("description", .text "Formula evaluation, aggregation and chart data pipelines"),
    ("endpoints", .list (Endpoint.listed.map fun e =>
      .record [("path", .text e.path), ("method", .text e.method),
        ("description", .text e.description)]))]

def healthData : Document := .record [("status", .text "healthy")]

def versionData : Document :=
  .record [("version", .text version),
    ("chart_types", Document.texts (ChartType.supported.map ChartType.name)),
    ("aggregations", Document.texts (AggregateKind.all.map AggregateKind.name))]

def process (request : ChartRequest) : Except Error Document :=
  if request.dataFile?.isSome then .error (.invalid .remoteDataFile)
  else request.process.map ChartData.toDocument

def explain (request : Explanation) : Except Error Document :=
  (Breakdown.describe request.rows request.mapping).map Breakdown.toDocument

/-- The verdict on a formula; a formula that is refused is an answer, not a failure. -/
def validate (request : Check) : Document :=
  match Formula.validate request.formula request.available with
  | .ok summary => .record [("valid", .bool true), ("summary", summary.toDocument)]
  | .error e =>
    .record [("valid", .bool false), ("issue", .record (("message", .text e.message) ::
      Document.optional "offset" (e.offset?.map .count)))]

def evaluate (request : Evaluation) : Except Error Document :=
  (Formula.evaluate request.rows request.formula request.output request.mode).map
    Dataset.toDocument

def aggregate (request : Aggregation) : Except Error Document :=
  (Chart.resolveIn (columns request.rows) request.column).map fun column =>
    .record [("column", .text column), ("kind", request.kind.toDocument),
      ("value", .ofValue (Aggregate.ofRows request.rows column request.kind
        request.percentile?)),
      ("row_count", .count request.rows.length)]

/-- The status of a body that is not what an endpoint reads. -/
def statusOfFault : Fault → Nat
  | .malformed => 400
  | .misshapen => 422

/-- A body read as a value, and the answer to it. Only the document at the head of
the body is read. -/
def withBody {α : Type} (body : String) (ofDocument : Decoder α) (answer : α → Reply) : Reply :=
  match ofDocument (Json.readHead body).1 with
  | .ok value => answer value
  | .error fault => ⟨statusOfFault fault, none⟩

/-- The answer of an endpoint to a body that announces JSON. -/
def answer (id body : String) : Endpoint → Reply
  | .root => .success id rootData
  | .health => .success id healthData
  | .version => .success id versionData
  | .process => withBody body ChartRequest.ofDocument fun r => .ofResult id (process r)
  | .explain => withBody body Explanation.ofDocument fun r => .ofResult id (explain r)
  | .validate => withBody body Check.ofDocument fun r => .success id (validate r)
  | .evaluate => withBody body Evaluation.ofDocument fun r => .ofResult id (evaluate r)
  | .aggregate => withBody body Aggregation.ofDocument fun r => .ofResult id (aggregate r)

/-- The path of a target, without query and fragment. -/
def pathOf (target : String) : String :=
  String.ofList (target.toList.takeWhile fun c => c != '?' && c != '#')

/-- The answer to one request under a fresh id. An options request is always granted,
and a head request is a get request answered without a body. -/
def respond (id : String) (request : Request) : Reply :=
  if request.method = "OPTIONS" then ⟨200, none⟩
  else
    match Endpoint.ofPath? (pathOf request.path) with
    | none => ⟨404, none⟩
    | some e =>
      if request.method = "HEAD" ∧ !e.takesBody then ⟨200, none⟩
      else if request.method ≠ e.method then ⟨405, none⟩
      else if !e.takesBody then answer id "" e
      else if !request.contentType?.any MediaType.isJson then ⟨415, none⟩
      else if bodyLimit < request.body.utf8ByteSize then ⟨413, none⟩
      else answer id request.body e

end Tabular.Service

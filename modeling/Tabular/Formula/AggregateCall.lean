import Tabular.Aggregate
import Tabular.Error
import Tabular.Reference

/-!
# Aggregate calls in formulas

`SUM(Revenue)` and its like are computed once over the whole dataset and replaced
by one token, so that what is left is plain arithmetic. A number becomes a literal.
A null becomes a column token under the aggregate's key, which the scope of the
formula sends to null; braces are blocked in formulas, so no column reference is
ever such a key.
-/
namespace Tabular.Formula

def aggregateOfName? (name : String) : Option AggregateKind :=
  if name = "SUM" then some .sum
  else if name = "AVG" then some .avg
  else if name = "COUNT" then some .count
  else if name = "MIN" then some .min
  else if name = "MAX" then some .max
  else none

/-- A function, a parenthesis, a column and a parenthesis, read as an aggregate of
that column. -/
structure AggregateCall where
  function : String
  kind : AggregateKind
  column : String
  offset : Nat
  deriving DecidableEq

def AggregateCall.ofTokens? (f opening column closing : Token) : Option AggregateCall :=
  if f.kind = .function ∧ opening.isParen '(' ∧ column.kind = .column ∧ closing.isParen ')' then
    let name := Text.upper f.value
    (aggregateOfName? name).map fun kind => ⟨name, kind, column.value, f.offset⟩
  else none

/-- Tokens with every aggregate call, from left to right, replaced by the token that
`substitute` answers. The state runs through the calls in the same order. -/
def replaceCalls {σ : Type} (substitute : AggregateCall → σ → Except Error (Token × σ)) :
    List Token → σ → Except Error (List Token × σ)
  | f :: opening :: column :: closing :: rest, state =>
    match AggregateCall.ofTokens? f opening column closing with
    | some call =>
      match substitute call state with
      | .error e => .error e
      | .ok (token, state) =>
        match replaceCalls substitute rest state with
        | .error e => .error e
        | .ok (tokens, state) => .ok (token :: tokens, state)
    | none =>
      match replaceCalls substitute (opening :: column :: closing :: rest) state with
      | .error e => .error e
      | .ok (tokens, state) => .ok (f :: tokens, state)
  | tokens, state => .ok (tokens, state)

def resultKey (name : String) : String := "\x7b" ++ name ++ "\x7d"

/-- An aggregate computed for a formula. -/
structure AggregateResult where
  name : String
  function : String
  column : String
  value : Option Float
  deriving DecidableEq

def AggregateResult.key (a : AggregateResult) : String := resultKey a.name

/-- Tokens without aggregate calls, and what the calls computed, each once. -/
structure Extraction where
  tokens : List Token
  computed : List AggregateResult

def Extraction.results (e : Extraction) : List (String × Option Float) :=
  e.computed.map fun a => (a.key, a.value)

def AggregateCall.name (call : AggregateCall) (column : String) : String :=
  call.function ++ "_" ++ column

/-- The call's result, computed on the first call of its kind and column and listed
after the ones before it. -/
def AggregateCall.compute (call : AggregateCall) (rows : Dataset) (column : String)
    (computed : List AggregateResult) : Option Float × List AggregateResult :=
  let name := call.name column
  match computed.find? (·.name == name) with
  | some a => (a.value, computed)
  | none =>
    let value := Aggregate.ofRows rows column call.kind none
    (value, computed ++ [⟨name, call.function, column, value⟩])

def AggregateCall.token (call : AggregateCall) (column : String) (value : Option Float) : Token :=
  match value with
  | some x => ⟨.number, Number.plain x, call.offset⟩
  | none => ⟨.column, resultKey (call.name column), call.offset⟩

/-- Every aggregate call computed over the rows and replaced. -/
def computeCalls (tokens : List Token) (rows : Dataset) (available : List String) :
    Except Error Extraction := do
  let (tokens, computed) ← replaceCalls (fun call computed => do
    let column ← require (resolve call.column available) call.column available
    let (value, computed) := call.compute rows column computed
    return (call.token column value, computed)) tokens []
  return ⟨tokens, computed⟩

end Tabular.Formula

import Tabular.Aggregate.Kind
import Tabular.Command.Options
import Tabular.Error
import Tabular.Formula.Mode
import Tabular.Number.Decimal

/-!
# Invocations

What the command line can be told to do, and how arguments say it.
-/
namespace Tabular.Command

open Formula (Mode)

/-- A thing to do, with all that it needs. -/
inductive Action
  | process (request : String)
  | explain (request : String)
  | eval (data formula output : String) (mode : Mode)
  | aggregate (data column : String) (kind : AggregateKind) (percentile? : Option Float)
  | group (data : String) (columns aggregates : List String) (percentile? : Option Float)
      (keepOthers : Bool)
  | pivot (data : String) (index columns : List String) (value : String)
      (kind : AggregateKind) (fill? : Option Float)
  | validate (formula : String) (columns : List String)

/-- A thing to do and whether its result is printed as JSON. -/
structure Invocation where
  action : Action
  json : Bool

/-- Options of every action; they may also stand before its name. -/
def commonOptions : List OptionKind :=
  [{ name := "json", arity := .flag }, { name := "verbose", letter? := some 'v', arity := .flag }]

def optionsOf? (action : String) : Option (List OptionKind) :=
  match action with
  | "process" => some []
  | "explain" => some []
  | "eval" => some [
      { name := "formula", letter? := some 'f' },
      { name := "alias", letter? := some 'a' },
      { name := "mode", letter? := some 'm' }]
  | "aggregate" => some [
      { name := "column", letter? := some 'c' },
      { name := "kind", letter? := some 'k' },
      { name := "percentile", letter? := some 'p' }]
  | "group" => some [
      { name := "by", letter? := some 'b', arity := .list },
      { name := "agg", letter? := some 'a', arity := .many },
      { name := "percentile", letter? := some 'p' },
      { name := "keep-original", letter? := some 'k', arity := .flag }]
  | "pivot" => some [
      { name := "index", letter? := some 'i', arity := .list },
      { name := "columns", letter? := some 'c', arity := .list },
      { name := "value" },
      { name := "kind", letter? := some 'k' },
      { name := "fill" }]
  | "validate" => some [{ name := "columns", letter? := some 'c', arity := .list }]
  | _ => none

namespace Matches

def subject? (found : Matches) : Option String :=
  match found.positional with
  | [subject] => some subject
  | _ => none

/-- The only positional argument, which names a file and so is not empty. -/
def path? (found : Matches) : Option String := found.subject?.filter (· ≠ "")

def list? (found : Matches) (name : String) : Option (List String) :=
  if found.has name then some (found.values name) else none

/-- The number that an option gives, if it is given; its text has to be one. -/
def number? (found : Matches) (name : String) : Option (Option Float) :=
  match found.value? name with
  | none => some none
  | some text => (Tabular.Number.read? text).map some

/-- The aggregate that an option gives, or the sum. -/
def kind? (found : Matches) : Option AggregateKind :=
  match found.value? "kind" with
  | none => some .sum
  | some text => AggregateKind.ofName? text

/-- The mode that an option gives, or one value per row. -/
def mode? (found : Matches) : Option Mode :=
  match found.value? "mode" with
  | none => some .rowWise
  | some text => (Mode.parse text).toOption

end Matches

def actionOf? (name : String) (found : Matches) : Option Action :=
  match name with
  | "process" => do
    return .process (← found.path?)
  | "explain" => do
    return .explain (← found.path?)
  | "eval" => do
    let output := (found.value? "alias").getD "result"
    return .eval (← found.path?) (← found.value? "formula") output (← found.mode?)
  | "aggregate" => do
    let column ← found.value? "column"
    return .aggregate (← found.path?) column (← found.kind?) (← found.number? "percentile")
  | "group" => do
    let columns ← found.list? "by"
    let percentile? ← found.number? "percentile"
    return .group (← found.path?) columns (found.values "agg") percentile?
      (found.has "keep-original")
  | "pivot" => do
    let index ← found.list? "index"
    let columns ← found.list? "columns"
    let value ← found.value? "value"
    return .pivot (← found.path?) index columns value (← found.kind?) (← found.number? "fill")
  | "validate" => do
    return .validate (← found.subject?) (found.values "columns")
  | _ => none

def Invocation.parse (arguments : List String) : Except Halt Invocation := do
  let (before, rest) ← readFlags (versionOption :: commonOptions) arguments {}
  match rest with
  | [] => throw .usage
  | name :: rest =>
    match optionsOf? name with
    | none => throw .usage
    | some options =>
      let found ← readArguments (options ++ commonOptions) rest none {}
      match actionOf? name found with
      | none => throw .usage
      | some action => return ⟨action, before.has "json" || found.has "json"⟩

end Tabular.Command

import Tabular.Amount
import Tabular.Formula.EvalError
import Tabular.Formula.Token

/-!
# Programs in postfix form

A program is the postfix form of an expression without aggregate calls. Running it
keeps a stack of optional numbers: a null operand makes its operator's result null,
before any other rule looks at the operands.
-/
namespace Tabular.Formula

/-- A binary operator. -/
inductive Operator
  | add
  | sub
  | mul
  | div
  | rem
  deriving DecidableEq

def Operator.symbol : Operator → Char
  | add => '+'
  | sub => '-'
  | mul => '*'
  | div => '/'
  | rem => '%'

def Operator.ofText? (text : String) : Option Operator :=
  if text = "+" then some .add
  else if text = "-" then some .sub
  else if text = "*" then some .mul
  else if text = "/" then some .div
  else if text = "%" then some .rem
  else none

def Operator.precedence : Operator → Nat
  | mul => 2
  | div => 2
  | rem => 2
  | add => 1
  | sub => 1

/-- A function of one number. -/
inductive NumberFunction
  | abs
  | round
  | sqrt
  deriving DecidableEq

def NumberFunction.name : NumberFunction → String
  | abs => "ABS"
  | round => "ROUND"
  | sqrt => "SQRT"

def NumberFunction.ofName? (name : String) : Option NumberFunction :=
  if name = "ABS" then some .abs
  else if name = "ROUND" then some .round
  else if name = "SQRT" then some .sqrt
  else none

/-- A function's value; the root of a negative number is NaN. -/
def NumberFunction.apply : NumberFunction → Float → Float
  | abs, x => x.abs
  | round, x => Number.round x
  | sqrt, x => x.sqrt

/-- One step of a program. -/
inductive Item
  | number (value : Float)
  | column (name : String) (offset : Nat)
  | binary (op : Operator) (offset : Nat)
  | negate (offset : Nat)
  | apply (function : NumberFunction) (offset : Nat)
  deriving DecidableEq

def Item.display : Item → String
  | number x => Number.plain x
  | column name _ => "[" ++ name ++ "]"
  | binary op _ => op.symbol.toString
  | negate _ => "NEG"
  | apply f _ => f.name

/-- A formula in postfix form. -/
abbrev Program := List Item

/-- A program's steps, separated by spaces. -/
def Program.display (program : Program) : String := " ".intercalate (program.map Item.display)

/-- The columns a program reads, in order, with repetitions. -/
def Program.columns (program : Program) : List String :=
  program.filterMap fun
    | .column name _ => some name
    | _ => none

/-- What column steps read: aggregate results by their key, and the row at hand.
Aggregate results win over the row's columns. -/
structure Scope where
  results : List (String × Option Float) := []
  row? : Option Row := none

/-- The number of a column. A missing or unreadable cell is null; without a row a
column that is none of the keys is an error. -/
def Scope.lookup (scope : Scope) (name : String) (offset : Nat) :
    Except EvalError (Option Float) :=
  match scope.results.lookup name with
  | some value => .ok value
  | none =>
    match scope.row? with
    | some row => .ok (row.number? name)
    | none => .error (.unresolvedColumn name offset)

/-- A result, unless it is not a finite number. -/
def refuseNonFinite (value : Float) (operation : String) (offset : Nat) : Except EvalError Float :=
  if value.isFinite then .ok value else .error (.nonFinite operation offset)

def Operator.apply (op : Operator) (left right : Float) (offset : Nat) :
    Except EvalError Float :=
  match op with
  | add => refuseNonFinite (left + right) "+" offset
  | sub => refuseNonFinite (left - right) "-" offset
  | mul => refuseNonFinite (left * right) "*" offset
  | div =>
    if right == 0.0 then .error (.divisionByZero offset)
    else refuseNonFinite (left / right) "/" offset
  | rem =>
    if right == 0.0 then .error (.moduloByZero offset)
    else refuseNonFinite (Number.remainder left right) "%" offset

/-- A binary operator's value on operands that may be null. -/
def Operator.applyNullable (op : Operator) (left right : Option Float) (offset : Nat) :
    Except EvalError (Option Float) :=
  match left, right with
  | some l, some r => (op.apply l r offset).map some
  | _, _ => .ok none

def NumberFunction.applyNullable (f : NumberFunction) (operand : Option Float) (offset : Nat) :
    Except EvalError (Option Float) :=
  match operand with
  | some x => (refuseNonFinite (f.apply x) f.name offset).map some
  | none => .ok none

/-- The stack, its top first. -/
abbrev Stack := List (Option Float)

def Item.run (scope : Scope) (item : Item) (stack : Stack) : Except EvalError Stack :=
  match item, stack with
  | .number x, stack => .ok (some x :: stack)
  | .column name offset, stack => do
    let value ← scope.lookup name offset
    return value :: stack
  | .binary op offset, right :: left :: rest => do
    let value ← op.applyNullable left right offset
    return value :: rest
  | .binary _ offset, _ => .error (.malformed .missingOperand offset)
  | .negate _, x :: rest => .ok (x.map Neg.neg :: rest)
  | .negate offset, [] => .error (.malformed .missingOperand offset)
  | .apply f offset, x :: rest => do
    let value ← f.applyNullable x offset
    return value :: rest
  | .apply _ offset, [] => .error (.malformed .missingOperand offset)

/-- Steps on the stack, from left to right. -/
def runItems (scope : Scope) : List Item → Stack → Except EvalError Stack
  | [], stack => .ok stack
  | item :: rest, stack =>
    match item.run scope stack with
    | .ok stack => runItems scope rest stack
    | .error e => .error e

/-- The value of a program: what it leaves as the only entry of the stack. -/
def Program.evaluate (program : Program) (scope : Scope) : Except EvalError (Option Float) :=
  match runItems scope program [] with
  | .error e => .error e
  | .ok [value] => .ok value
  | .ok [] => .error (.malformed .noValue 0)
  | .ok stack => .error (.malformed (.leftoverValues stack.length) 0)

end Tabular.Formula

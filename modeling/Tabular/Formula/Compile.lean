import Tabular.Formula.Program
import Tabular.Text.Case

/-!
# From tokens to programs

Operator-precedence conversion to postfix form. Operators wait on a stack until an
operator that binds no tighter, a closing parenthesis or the end calls them out; a
flag says whether an operand or an operator has to come next.
-/
namespace Tabular.Formula

/-- What waits on the operator stack. -/
inductive Held
  | binary (op : Operator) (offset : Nat)
  | negate (offset : Nat)
  | function (f : NumberFunction) (offset : Nat)
  | openParen (offset : Nat)
  deriving DecidableEq

/-- How tightly a waiting operator binds; functions and parentheses hold back what
is below them. -/
def Held.precedence? : Held → Option Nat
  | binary op _ => some op.precedence
  | negate _ => some 3
  | function .. => none
  | openParen _ => none

def Held.item? : Held → Option Item
  | binary op offset => some (.binary op offset)
  | negate offset => some (.negate offset)
  | function f offset => some (.apply f offset)
  | openParen _ => none

/-- How far a conversion has come: steps written, entries waiting (the innermost
first), and whether an operand has to come next. -/
structure Conversion where
  output : List Item := []
  held : List Held := []
  expectsOperand : Bool := true

namespace Conversion

/-- Entries that bind at least as tightly as `precedence` are written out. -/
def popTighter (precedence : Nat) : List Item → List Held → List Item × List Held
  | output, [] => (output, [])
  | output, top :: rest =>
    if top.precedence?.any (precedence ≤ ·) then
      popTighter precedence (output ++ top.item?.toList) rest
    else (output, top :: rest)

/-- Entries up to the innermost open parenthesis are written out, and the
parenthesis is taken off. -/
def popToOpen? : List Item → List Held → Option (List Item × List Held)
  | _, [] => none
  | output, .openParen _ :: rest => some (output, rest)
  | output, top :: rest => popToOpen? (output ++ top.item?.toList) rest

/-- A function directly below a closed parenthesis is written out. -/
def popFunction : List Item → List Held → List Item × List Held
  | output, .function f offset :: rest => (output ++ [.apply f offset], rest)
  | output, held => (output, held)

/-- Entries left at the end are written out; none of them may be a parenthesis. -/
def popAll : List Item → List Held → Except EvalError (List Item)
  | output, [] => .ok output
  | _, .openParen offset :: _ => .error (.malformed .unclosedParen offset)
  | output, top :: rest => popAll (output ++ top.item?.toList) rest

def needOperand (state : Conversion) (t : Token) : Except EvalError Unit :=
  if state.expectsOperand then .ok ()
  else .error (.malformed (.missingOperator t.value) t.offset)

def operand (state : Conversion) (item : Item) : Conversion :=
  { state with output := state.output ++ [item], expectsOperand := false }

/-- An operator token: a sign where an operand is expected, else a binary operator. -/
def operator (state : Conversion) (op : Operator) (offset : Nat) :
    Except EvalError Conversion :=
  if state.expectsOperand then
    match op with
    | .sub => .ok { state with held := .negate offset :: state.held }
    | .add => .ok state
    | _ => .error (.malformed (.missingLeftOperand op.symbol) offset)
  else
    let (output, held) := popTighter op.precedence state.output state.held
    .ok ⟨output, .binary op offset :: held, true⟩

/-- A function token, which has to stand directly before a parenthesis. -/
def function (state : Conversion) (t : Token) (next? : Option Token) :
    Except EvalError Conversion :=
  let name := Text.upper t.value
  if aggregateNames.contains name then .error (.misplacedAggregate name t.offset)
  else
    match NumberFunction.ofName? name with
    | none => .error (.malformed (.unknownFunction name) t.offset)
    | some f =>
      if next?.any (·.isParen '(') then
        .ok { state with held := .function f t.offset :: state.held }
      else .error (.malformed (.functionWithoutParen name) t.offset)

def close (state : Conversion) (offset : Nat) : Except EvalError Conversion :=
  if state.expectsOperand then .error (.malformed .missingOperandBeforeClose offset)
  else
    match popToOpen? state.output state.held with
    | none => .error (.malformed .unmatchedClose offset)
    | some (output, held) =>
      let (output, held) := popFunction output held
      .ok ⟨output, held, false⟩

/-- One token; `next?` is the one after it. -/
def step (state : Conversion) (t : Token) (next? : Option Token) :
    Except EvalError Conversion :=
  match t.kind with
  | .number => do
    state.needOperand t
    match Number.read? t.value with
    | some value => return state.operand (.number value)
    | none => throw (.malformed (.invalidNumber t.value) t.offset)
  | .column => do
    state.needOperand t
    return state.operand (.column t.value t.offset)
  | .function => do
    state.needOperand t
    state.function t next?
  | .operator =>
    match Operator.ofText? t.value with
    | some op => state.operator op t.offset
    | none => .error (.malformed (.unknownOperator t.value) t.offset)
  | .paren =>
    if t.isParen '(' then
      if state.expectsOperand then
        .ok { state with held := .openParen t.offset :: state.held }
      else .error (.malformed (.missingOperator "(") t.offset)
    else state.close t.offset

def steps (state : Conversion) : List Token → Except EvalError Conversion
  | [] => .ok state
  | t :: rest =>
    match state.step t rest.head? with
    | .ok state => steps state rest
    | .error e => .error e

/-- The program, once the tokens have run out; `finish` is the last one's offset. -/
def program (state : Conversion) (finish : Nat) : Except EvalError Program :=
  if state.expectsOperand then .error (.malformed .incomplete finish)
  else popAll state.output state.held

end Conversion

/-- The postfix form of a token sequence without aggregate calls. -/
def Program.compile (tokens : List Token) : Except EvalError Program :=
  match Conversion.steps {} tokens with
  | .ok state => state.program ((tokens.getLast?.map Token.offset).getD 0)
  | .error e => .error e

end Tabular.Formula

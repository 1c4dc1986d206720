/-!
# Failed evaluations

Why a token sequence is not an expression, or an expression has no value. Each
carries the offset of the token it is blamed on.
-/
namespace Tabular.Formula

/-- What is wrong with the shape of an expression. -/
inductive Malformation
  | invalidNumber (text : String)
  | unknownFunction (name : String)
  | functionWithoutParen (name : String)
  | unknownOperator (text : String)
  | missingOperator (before : String)
  | missingLeftOperand (operator : Char)
  | missingOperandBeforeClose
  | unmatchedClose
  | incomplete
  | unclosedParen
  | missingOperand
  | noValue
  | leftoverValues (count : Nat)
  deriving DecidableEq

def Malformation.message : Malformation → String
  | invalidNumber text => "Invalid number '" ++ text ++ "'"
  | unknownFunction name => "Unknown function '" ++ name ++ "'"
  | functionWithoutParen name => name ++ " must be followed by '('"
  | unknownOperator text => "Unknown operator '" ++ text ++ "'"
  | missingOperator before => "Missing operator before '" ++ before ++ "'"
  | missingLeftOperand operator =>
    "Operator '" ++ operator.toString ++ "' is missing its left operand"
  | missingOperandBeforeClose => "Missing operand before ')'"
  | unmatchedClose => "Unbalanced parentheses: ')' has no matching '('"
  | incomplete => "Expression is incomplete"
  | unclosedParen => "Unbalanced parentheses: '(' is never closed"
  | missingOperand => "Operator is missing an operand"
  | noValue => "Expression produced no value"
  | leftoverValues count => toString count ++ " values left without an operator"

/-- Why an expression cannot be built or evaluated, and where. -/
inductive EvalError
  | divisionByZero (position : Nat)
  | moduloByZero (position : Nat)
  | nonFinite (operation : String) (position : Nat)
  | unresolvedColumn (name : String) (position : Nat)
  | misplacedAggregate (name : String) (position : Nat)
  | malformed (cause : Malformation) (position : Nat)
  deriving DecidableEq

def EvalError.position : EvalError → Nat
  | divisionByZero p => p
  | moduloByZero p => p
  | nonFinite _ p => p
  | unresolvedColumn _ p => p
  | misplacedAggregate _ p => p
  | malformed _ p => p

def EvalError.message : EvalError → String
  | divisionByZero p => "Division by zero at position " ++ toString p
  | moduloByZero p => "Modulo by zero at position " ++ toString p
  | nonFinite operation p =>
    "Result of '" ++ operation ++ "' at position " ++ toString p ++ " is not a finite number"
  | unresolvedColumn name p =>
    "Unresolved column '" ++ name ++ "' at position " ++ toString p
  | misplacedAggregate name p =>
    name ++ " at position " ++ toString p ++ " must wrap a single column, e.g. " ++ name ++
      "(Revenue)"
  | malformed cause p =>
    "Malformed expression at position " ++ toString p ++ ": " ++ cause.message

end Tabular.Formula

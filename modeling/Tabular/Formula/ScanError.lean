import Tabular.Formula.Token
import Tabular.Limits

/-!
# Rejected formula texts

Why a formula's text is not a token sequence, and the character it is blamed on.
-/
namespace Tabular.Formula

/-- What is wrong with a formula's text. -/
inductive ScanError.Cause
  | empty
  | tooLong (length : Nat)
  | disallowedCharacter (c : Char)
  | unexpectedCharacter (c : Char)
  | invalidNumber (literal : String)
  | unknownFunction (name : String)
  | unclosedBracket
  | emptyColumnReference
  | unmatchedClose
  | unclosedParen (position finish : Nat)
  | tooDeep
  | tooComplex
  deriving DecidableEq

/-- A cause and the character offset into the formula at which it arose. -/
structure ScanError where
  cause : ScanError.Cause
  position : Nat
  deriving DecidableEq

namespace ScanError

/-- What the cause says, without its position. -/
def Cause.message : Cause → String
  | empty => "Formula is empty"
  | tooLong length =>
    "Formula is " ++ toString length ++ " characters long; the maximum is " ++
      toString Limits.formulaLength
  | disallowedCharacter c => "Character '" ++ c.toString ++ "' is not allowed in formulas"
  | unexpectedCharacter c => "Unexpected character: '" ++ c.toString ++ "'"
  | invalidNumber literal => "Invalid number: " ++ literal
  | unknownFunction name =>
    "Unknown function: " ++ name ++ ". Allowed: " ++ ", ".intercalate functionNames
  | unclosedBracket => "Unclosed '[' in column reference"
  | emptyColumnReference => "Empty column reference '[]'"
  | unmatchedClose => "Unbalanced parentheses: ')' has no matching '('"
  | unclosedParen position finish =>
    "Unbalanced parentheses: '(' at position " ++ toString position ++
      " is never closed (formula ends at " ++ toString finish ++ ")"
  | tooDeep =>
    "Parentheses nested deeper than " ++ toString Limits.nestingDepth ++ " levels"
  | tooComplex =>
    "Formula too complex: more than " ++ toString Limits.formulaComplexity ++
      " operators and functions"

def message (e : ScanError) : String :=
  "Tokenize error at position " ++ toString e.position ++ ": " ++ e.cause.message

def concernsParens (e : ScanError) : Bool :=
  match e.cause with
  | .unmatchedClose => true
  | .unclosedParen .. => true
  | _ => false

end ScanError

/-- The formula on one line and a caret under one of its characters, or behind the
last, with a text beside it. -/
def caretLines (formula : String) (position : Nat) (text : String) : String :=
  formula ++ "\n" ++ String.ofList (List.replicate (min position formula.length) ' ') ++
    "^ " ++ text

def ScanError.withCaret (e : ScanError) (formula : String) : String :=
  caretLines formula e.position e.cause.message

end Tabular.Formula

/-!
# Formula tokens

A token is a lexical class, its text, and where it starts in the formula. Which
names are functions is fixed here, for every later stage.
-/
namespace Tabular.Formula

/-- Lexical class of a token. -/
inductive TokenKind
  | number
  | column
  | operator
  | function
  | paren
  deriving DecidableEq

def TokenKind.name : TokenKind → String
  | number => "number"
  | column => "column"
  | operator => "operator"
  | function => "function"
  | paren => "paren"

/-- A token and the character offset at which it starts. -/
structure Token where
  kind : TokenKind
  value : String
  offset : Nat
  deriving DecidableEq

/-- A parenthesis token beginning with the given character. -/
def Token.isParen (t : Token) (c : Char) : Bool :=
  t.kind = .paren && t.value.toList.head? == some c

/-- Names of the functions that fold a whole column into one number. -/
def aggregateNames : List String := ["SUM", "AVG", "COUNT", "MIN", "MAX"]

def scalarNames : List String := ["ABS", "ROUND", "SQRT"]

def functionNames : List String := aggregateNames ++ scalarNames

end Tabular.Formula

import Tabular.Formula.ScanError
import Tabular.Number.Decimal
import Tabular.Text.Case

/-!
# Scanning formulas

`tokenize` is the gate for untrusted formulas. Length and blocked characters are
checked before anything is read; then lexemes are cut off the front one by one;
then parentheses and complexity are checked on the tokens. Positions count
characters of the whole formula, a leading `=` included.
-/
namespace Tabular.Formula

def isBlocked (c : Char) : Bool := [';', '\x60', '\\', '$', '\x7b', '\x7d'].contains c

def isNumberChar (c : Char) : Bool := Number.isDigit c || c == '.'

def isNameStart (c : Char) : Bool := Text.isLetter c || c == '_'

def isNameChar (c : Char) : Bool := Text.isAlphanumeric c || c == '_'

def isOperatorChar (c : Char) : Bool := ['+', '-', '*', '/', '%'].contains c

/-- A lexeme read off the front of a text: its class and value, and how many
characters follow its first. -/
structure Lexeme where
  kind : TokenKind
  value : String
  more : Nat

/-- A number literal beginning with `c`: the longest run of digits and points,
which has to denote a finite double. -/
def scanNumber (c : Char) (tail : List Char) : Except ScanError.Cause Lexeme :=
  let run := tail.takeWhile isNumberChar
  let literal := String.ofList (c :: run)
  match Number.Decimal.read? (c :: run) with
  | some d =>
    if d.toFloat.isFinite then .ok ⟨.number, literal, run.length⟩
    else .error (.invalidNumber literal)
  | none => .error (.invalidNumber literal)

/-- A bracketed column reference after its `[`: anything up to the next `]`, which
must not be blank. -/
def scanBracket (tail : List Char) : Except ScanError.Cause Lexeme :=
  let inner := tail.takeWhile (· != ']')
  if inner.length = tail.length then .error .unclosedBracket
  else
    let name := Text.trimChars inner
    if name.isEmpty then .error .emptyColumnReference
    else .ok ⟨.column, String.ofList name, inner.length + 1⟩

/-- A bare name beginning with `c`. Directly before `(` it has to be a function,
anywhere else it is a column reference. -/
def scanName (c : Char) (tail : List Char) : Except ScanError.Cause Lexeme :=
  let run := tail.takeWhile isNameChar
  let name := String.ofList (c :: run)
  if (tail.drop run.length).head? = some '(' then
    let upper := Text.upper name
    if functionNames.contains upper then .ok ⟨.function, upper, run.length⟩
    else .error (.unknownFunction name)
  else .ok ⟨.column, name, run.length⟩

/-- The lexeme at the front of a text that does not begin with white space. -/
def scanLexeme (c : Char) (tail : List Char) : Except ScanError.Cause Lexeme :=
  if c = '(' ∨ c = ')' then .ok ⟨.paren, c.toString, 0⟩
  else if isOperatorChar c then .ok ⟨.operator, c.toString, 0⟩
  else if c = '[' then scanBracket tail
  else if isNumberChar c then scanNumber c tail
  else if isNameStart c then scanName c tail
  else .error (.unexpectedCharacter c)

/-- The tokens of a text whose first character is at `position`. -/
def scanFrom (position : Nat) (source : List Char) : Except ScanError (List Token) :=
  match source with
  | [] => .ok []
  | c :: tail =>
    if Text.isBlank c then scanFrom (position + 1) tail
    else
      match scanLexeme c tail with
      | .error cause => .error ⟨cause, position⟩
      | .ok lexeme =>
        match scanFrom (position + 1 + lexeme.more) (tail.drop lexeme.more) with
        | .error e => .error e
        | .ok tokens => .ok (⟨lexeme.kind, lexeme.value, position⟩ :: tokens)
termination_by source.length
decreasing_by
  · simp
  · simp only [List.length_drop, List.length_cons]; omega

/-- Parentheses match and nest no deeper than allowed. `opened` holds the offsets of
those still open, the innermost first. -/
def refuseUnbalanced (finish : Nat) (opened : List Nat) : List Token → Except ScanError Unit
  | [] =>
    match opened with
    | [] => .ok ()
    | position :: _ => .error ⟨.unclosedParen position finish, position⟩
  | t :: rest =>
    if t.isParen '(' then
      if opened.length < Limits.nestingDepth then refuseUnbalanced finish (t.offset :: opened) rest
      else .error ⟨.tooDeep, t.offset⟩
    else if t.isParen ')' then
      match opened with
      | [] => .error ⟨.unmatchedClose, t.offset⟩
      | _ :: outer => refuseUnbalanced finish outer rest
    else refuseUnbalanced finish opened rest

def Token.isCounted (t : Token) : Bool := t.kind = .operator || t.kind = .function

def refuseComplex (tokens : List Token) : Except ScanError Unit :=
  match (tokens.filter Token.isCounted)[Limits.formulaComplexity]? with
  | some t => .error ⟨.tooComplex, t.offset⟩
  | none => .ok ()

/-- The formula without one leading `=`, and the position its text begins at. -/
def stripEquals : List Char → Nat × List Char
  | '=' :: rest => (1, rest)
  | cs => (0, cs)

/-- The first blocked character of a text and its position. -/
def firstBlocked? (position : Nat) : List Char → Option ScanError
  | [] => none
  | c :: rest =>
    if isBlocked c then some ⟨.disallowedCharacter c, position⟩
    else firstBlocked? (position + 1) rest

/-- The tokens of a formula, or the first check it fails. -/
def tokenize (formula : String) : Except ScanError (List Token) := do
  let (base, source) := stripEquals formula.toList
  let finish := base + source.length
  if Limits.formulaLength < finish then
    throw ⟨.tooLong finish, Limits.formulaLength⟩
  if let some e := firstBlocked? base source then throw e
  let tokens ← scanFrom base source
  if tokens.isEmpty then throw ⟨.empty, base⟩
  refuseUnbalanced finish [] tokens
  refuseComplex tokens
  return tokens

end Tabular.Formula

import Tabular.Document.Json

/-!
# Plain scalars

What an unquoted YAML scalar stands for where no type is asked for: nothing, a truth
value, a whole number, a double or its own text. Digits behind a leading zero are
text, so that codes such as `010` keep their zero.
-/
namespace Tabular.Plain

def isNothing (s : String) : Bool := ["", "~", "null", "Null", "NULL"].contains s

def bool? (s : String) : Option Bool :=
  if ["true", "True", "TRUE"].contains s then some true
  else if ["false", "False", "FALSE"].contains s then some false
  else none

/-- The whole number that digits of a base denote; the base is at most sixteen. -/
def digits? (base : Nat) (cs : List Char) : Option Nat :=
  if cs.isEmpty then none
  else cs.foldlM (fun n c => do
    let digit ← Json.hexDigit? c
    if digit < base then some (base * n + digit) else none) 0

def isZeroPadded (cs : List Char) : Bool :=
  1 < cs.length && cs.head? == some '0' && cs.all Number.isDigit

/-- An unsigned whole number: hexadecimal, octal or binary behind a mark, else
decimal without leading zeros. -/
def magnitude? : List Char → Option Nat
  | '0' :: 'x' :: rest => digits? 16 rest
  | '0' :: 'o' :: rest => digits? 8 rest
  | '0' :: 'b' :: rest => digits? 2 rest
  | cs => if isZeroPadded cs then none else digits? 10 cs

def int? (s : String) : Option Int :=
  match s.toList with
  | '-' :: rest => (magnitude? rest).map fun n => -(n : Int)
  | '+' :: rest => (magnitude? rest).map fun n => (n : Int)
  | cs => (magnitude? cs).map fun n => (n : Int)

/-- A whole number of 64 bits with no sign or a plus sign. -/
def nat? (s : String) : Option Nat := do
  let n ← match s.toList with
    | '+' :: rest => magnitude? rest
    | cs => magnitude? cs
  if n < Number.twoTo 64 then some n else none

/-- A double: an infinity, NaN or a decimal number that is not past the largest
double. -/
def float? (s : String) : Option Float :=
  if [".inf", ".Inf", ".INF", "+.inf", "+.Inf", "+.INF"].contains s then some Number.infinity
  else if ["-.inf", "-.Inf", "-.INF"].contains s then some (-Number.infinity)
  else if [".nan", ".NaN", ".NAN"].contains s then some Number.nan
  else
    ((Number.Decimal.read? s.toList).map Number.Decimal.toFloat).filter Float.isFinite

def floatOrText (s : String) : Document :=
  if isZeroPadded (Number.readSign s.toList).2 then .text s
  else match float? s with
    | some x => .float x
    | none => .text s

/-- What a scalar stands for. A whole number of more than 64 bits but at most 128
stands for nothing that a document can hold. -/
def settle? (s : String) : Option Document :=
  if isNothing s then some .null
  else
    match bool? s, int? s with
    | some b, _ => some (.bool b)
    | none, some i =>
      if -(Number.twoTo 63 : Int) ≤ i ∧ i < Number.twoTo 64 then some (.int i)
      else if -(Number.twoTo 127 : Int) ≤ i ∧ i < Number.twoTo 128 then none
      else some (floatOrText s)
    | none, none => some (floatOrText s)

end Tabular.Plain

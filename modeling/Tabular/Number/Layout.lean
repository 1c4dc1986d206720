import Tabular.Number.Shortest

/-!
# Laying out numbers as text

`plain` writes every digit place and never an exponent; cells, grouping keys and
formula tokens use it. `exchange` is the form of numbers in structured output,
where a fraction or an exponent always marks a double. `sixPlaces` is the form of
numbers in printed tables.
-/
namespace Tabular.Number

/-- Digits of a decimal and the place of its point: the value is
`0.d₁d₂… * 10 ^ point`. -/
def Decimal.places (d : Decimal) : List Char × Int :=
  let digits := Nat.toDigits 10 d.digits
  (digits, digits.length + d.exponent)

def signText (negative : Bool) : List Char := if negative then ['-'] else []

/-- Digits before the point, at least one, and digits after it. -/
def positional (digits : List Char) (point : Int) : List Char × List Char :=
  if point ≤ 0 then (['0'], List.replicate (-point).toNat '0' ++ digits)
  else (digits.take point.toNat ++ List.replicate (point.toNat - digits.length) '0',
    digits.drop point.toNat)

/-- Every digit place of a decimal, without an exponent, and a point only before a
fraction. -/
def Decimal.plain (d : Decimal) : String :=
  let (digits, point) := d.places
  let (whole, fraction) := if d.digits = 0 then (['0'], []) else positional digits point
  String.ofList (signText d.negative ++ whole ++
    (if fraction.isEmpty then [] else '.' :: fraction))

def specialText (x : Float) : String :=
  if x.isNaN then "NaN" else if x < 0.0 then "-inf" else "inf"

/-- Shortest digits in plain places, ties away from zero: `150`, `0.00001`, `-0`. -/
def plain (x : Float) : String :=
  match shortest? .up x with
  | some d => d.plain
  | none => specialText x

/-- Shortest digits, ties to even. With `-4 ≤ point ≤ 16` in plain places and
always a fraction (`150.0`), else with a signed exponent (`1e+16`). -/
def Decimal.exchange (d : Decimal) : String :=
  let (digits, point) := d.places
  let sign := signText d.negative
  if d.digits = 0 then String.ofList (sign ++ ['0', '.', '0'])
  else if -4 ≤ point ∧ point ≤ 16 then
    let (whole, fraction) := positional digits point
    String.ofList (sign ++ whole ++ '.' :: (if fraction.isEmpty then ['0'] else fraction))
  else
    let mantissa := digits.take 1 ++ (if digits.length ≤ 1 then [] else '.' :: digits.drop 1)
    let power := point - 1
    String.ofList (sign ++ mantissa ++ 'e' :: (if power < 0 then '-' else '+') ::
      Nat.toDigits 10 power.natAbs)

/-- A finite double in structured output; `none` for the others, which have no
form there. -/
def exchange? (x : Float) : Option String := (shortest? .even x).map Decimal.exchange

/-- Exactly six digits after the point, ties to even. -/
def sixPlaces (x : Float) : String :=
  match parts? x with
  | none => specialText x
  | some p =>
    let digits := Nat.toDigits 10 (roundEven (p.num * tenTo 6) p.den)
    let padded := List.replicate (7 - digits.length) '0' ++ digits
    String.ofList (signText p.negative ++ padded.take (padded.length - 6) ++
      '.' :: padded.drop (padded.length - 6))

end Tabular.Number

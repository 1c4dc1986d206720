import Tabular.Number.Power

/-!
# The exact value of a double

A finite double is `± significand * 2 ^ exponent`. Every operation here that has
to be exact (remainder, rounding to a whole number, decimal text) works on these
three parts in whole numbers, and returns to doubles through `nearest`, the one
rounding step of the library.
-/
namespace Tabular.Number

/-- A finite double read exactly: `± significand * 2 ^ exponent`. -/
structure Parts where
  negative : Bool
  significand : Nat
  exponent : Int
  deriving DecidableEq

/-- The parts of a bit pattern; the largest exponent field has none. -/
def Parts.ofBits? (bits : Nat) : Option Parts :=
  let field : Nat := bits / twoTo 52 % twoTo 11
  let fraction : Nat := bits % twoTo 52
  let negative := bits / twoTo 63 % 2 = 1
  if field = 2047 then none
  else if field = 0 then some ⟨negative, fraction, -1074⟩
  else some ⟨negative, fraction + twoTo 52, field - 1075⟩

/-- The parts of a double; an infinity and NaN have none. -/
def parts? (x : Float) : Option Parts := Parts.ofBits? x.toBits.toNat

/-- Numerator of the magnitude, over `Parts.den`. -/
def Parts.num (p : Parts) : Nat := p.significand * twoTo p.exponent.toNat

/-- Denominator of the magnitude, a power of two. -/
def Parts.den (p : Parts) : Nat := twoTo (-p.exponent).toNat

def infinityBits : Nat := 2047 * twoTo 52

/-- A quotient rounded to the nearest whole number, ties to even. -/
def roundEven (num den : Nat) : Nat :=
  let whole := num / den
  let twice := 2 * (num % den)
  if den < twice ∨ (twice = den ∧ whole % 2 = 1) then whole + 1 else whole

/-- The power of two in which `num / den` is written with 53 bits, or the least
one a double has. -/
def unitExponent (num den : Nat) : Int :=
  let guess : Int := (num.log2 : Int) - (den.log2 : Int) - 52
  let fits := den * twoTo (52 + guess).toNat ≤ num * twoTo (-(52 + guess)).toNat
  max (if fits then guess else guess - 1) (-1074)

/-- The bit pattern of the double nearest to `num / den`, ties to even, past the
largest double infinity. A carry out of the significand lands in the exponent
field, which is where it belongs. -/
def nearestBits (num den : Nat) : Nat :=
  if num = 0 then 0 else
    let unit := unitExponent num den
    let scaled := roundEven (num * twoTo (-unit).toNat) (den * twoTo unit.toNat)
    min ((unit + 1074).toNat * twoTo 52 + scaled) infinityBits

def ofMagnitude (negative : Bool) (bits : Nat) : Float :=
  Float.ofBits (UInt64.ofNat (if negative then bits + twoTo 63 else bits))

/-- The double nearest to `± num / den`. -/
def nearest (negative : Bool) (num den : Nat) : Float :=
  ofMagnitude negative (nearestBits num den)

def infinity : Float := ofMagnitude false infinityBits

def nan : Float := 0.0 / 0.0

def Parts.floor (p : Parts) : Nat := p.num / p.den

def Parts.isWhole (p : Parts) : Bool := p.num % p.den == 0

/-- The double has no fractional part; neither infinity nor NaN counts. -/
def isWhole (x : Float) : Bool := (parts? x).any Parts.isWhole

/-- The nearest whole number, a half going away from zero. -/
def round (x : Float) : Float :=
  match parts? x with
  | none => x
  | some p => nearest p.negative ((2 * p.num + p.den) / (2 * p.den)) 1

/-- What is left of `x` after subtracting whole multiples of `y` toward zero. It
is exact and has the sign of `x`. -/
def remainder (x y : Float) : Float :=
  match parts? x, parts? y with
  | some p, some q =>
    if q.significand = 0 then nan
    else nearest p.negative (p.num * q.den % (q.num * p.den)) (p.den * q.den)
  | some _, none => if y.isNaN then nan else x
  | none, _ => nan

/-- Position of a double in the total order of bit patterns, where `-0.0` comes
before `0.0`. -/
def orderKey (x : Float) : Int :=
  let bits := x.toBits.toNat
  if bits < twoTo 63 then bits else (twoTo 63 : Int) - 1 - (bits : Int)

/-- Identity of a value for counting: both zeros are one value. -/
def countingKey (x : Float) : UInt64 := if x == 0.0 then (0.0 : Float).toBits else x.toBits

end Tabular.Number

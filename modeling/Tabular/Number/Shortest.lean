import Tabular.Number.Decimal

/-!
# Shortest decimal text

`shortest` is the decimal number with the fewest digits whose nearest double is
the given one, and of those the nearest to it. Each candidate is tried by reading
it back, so what it returns reads back by construction.
-/
namespace Tabular.Number

/-- Which of two equally near candidates is taken. -/
inductive Tie
  | even
  | up
  deriving DecidableEq

/-- The power of ten just above `num / den`: `10 ^ (k - 1) ≤ num / den < 10 ^ k`. -/
def decimalPoint (num den : Nat) : Int :=
  if den ≤ num then digitCount (num / den)
  else 1 - (digitCount ((den - 1) / num) : Int)

/-- The multiple of `10 ^ unit` on either side of `num / den` that reads back to
`bits`; of two the nearer. -/
def candidate? (tie : Tie) (num den bits : Nat) (unit : Int) : Option Nat :=
  let top := num * tenTo (-unit).toNat
  let bottom := den * tenTo unit.toNat
  let low := top / bottom
  let twice := 2 * (top % bottom)
  let readsBack (n : Nat) := (Decimal.mk false n unit).magnitudeBits == bits
  let nearer :=
    if twice < bottom then low
    else if bottom < twice then low + 1
    else match tie with
      | .up => low + 1
      | .even => if low % 2 = 0 then low else low + 1
  match readsBack low, readsBack (low + 1) with
  | true, true => some nearer
  | true, false => some low
  | false, true => some (low + 1)
  | false, false => none

/-- Zeros at the end of the digits moved into the power of ten. -/
def Decimal.strip (d : Decimal) : Decimal :=
  let zeros := ((Nat.toDigits 10 d.digits).reverse.takeWhile (· == '0')).length
  if d.digits = 0 then ⟨d.negative, 0, 0⟩
  else ⟨d.negative, d.digits / tenTo zeros, d.exponent + zeros⟩

def Parts.exact (p : Parts) : Decimal :=
  if 0 ≤ p.exponent then ⟨p.negative, p.num, 0⟩
  else ⟨p.negative, p.significand * Nat.pow 5 (-p.exponent).toNat, p.exponent⟩

/-- The shortest decimal that reads back to the double; an infinity and NaN have
none. Seventeen digits are enough for every double; the full expansion stands
behind them. -/
def shortest? (tie : Tie) (x : Float) : Option Decimal :=
  (parts? x).map fun p =>
    if p.significand = 0 then ⟨p.negative, 0, 0⟩
    else
      let bits := x.toBits.toNat % twoTo 63
      let point := decimalPoint p.num p.den
      let found := (List.range 17).findSome? fun n =>
        let unit := point - (n + 1 : Nat)
        (candidate? tie p.num p.den bits unit).map fun c => Decimal.mk p.negative c unit
      (found.getD p.exact).strip

end Tabular.Number

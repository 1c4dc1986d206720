import Tabular.Number.Parts

/-!
# Decimal literals

`Decimal` is a number as it is written: a sign, digits and a power of ten.
`Decimal.toFloat` is the double nearest to it. The reader takes the longest
literal at the head of a text and hands back the rest, so the formula lexer,
numeric cells and both document formats share one grammar and differ in what
they allow around it.
-/
namespace Tabular.Number

/-- A decimal number as written: `± digits * 10 ^ exponent`. -/
structure Decimal where
  negative : Bool
  digits : Nat
  exponent : Int
  deriving DecidableEq

/-- How many decimal digits a whole number has; zero has one. -/
def digitCount (n : Nat) : Nat := (Nat.toDigits 10 n).length

/-- The bit pattern of the double nearest to `digits * 10 ^ exponent`. Past 310
places before the point it is infinity and past 330 after it zero, so a literal's
exponent never makes the numbers large. -/
def Decimal.magnitudeBits (d : Decimal) : Nat :=
  let places : Int := digitCount d.digits + d.exponent
  if d.digits = 0 ∨ places < -330 then 0
  else if 310 < places then infinityBits
  else nearestBits (d.digits * tenTo d.exponent.toNat) (tenTo (-d.exponent).toNat)

def Decimal.toFloat (d : Decimal) : Float := ofMagnitude d.negative d.magnitudeBits

def isDigit (c : Char) : Bool := '0' ≤ c && c ≤ '9'

theorem isDigit_iff {c : Char} : isDigit c = true ↔ 48 ≤ c.toNat ∧ c.toNat ≤ 57 := by
  simp only [isDigit, Bool.and_eq_true, decide_eq_true_eq, Char.le_def, UInt32.le_iff_toNat_le]
  rfl

def digitsValue (cs : List Char) : Nat :=
  cs.foldl (fun n c => 10 * n + (c.toNat - 48)) 0

/-- An optional sign: whether it is a minus, and what follows it. -/
def readSign : List Char → Bool × List Char
  | '-' :: rest => (true, rest)
  | '+' :: rest => (false, rest)
  | cs => (false, cs)

/-- The exponent part, if one stands here: `e`, an optional sign and digits. An
`e` without digits is not an exponent and is left in place. -/
def readExponent (cs : List Char) : Int × List Char :=
  match cs with
  | e :: rest =>
    if e = 'e' ∨ e = 'E' then
      let (negative, rest) := readSign rest
      let digits := rest.takeWhile isDigit
      if digits.isEmpty then (0, cs)
      else
        let size : Int := digitsValue digits
        (if negative then -size else size, rest.dropWhile isDigit)
    else (0, cs)
  | [] => (0, cs)

/-- An unsigned decimal at the head of a text: digits with at most one point and
at least one digit, then an optional exponent. -/
def readUnsigned? (negative : Bool) (cs : List Char) : Option (Decimal × List Char) :=
  let whole := cs.takeWhile isDigit
  let rest := cs.dropWhile isDigit
  let (fraction, rest) := match rest with
    | '.' :: after => (after.takeWhile isDigit, after.dropWhile isDigit)
    | _ => ([], rest)
  if whole.isEmpty && fraction.isEmpty then none
  else
    let (exponent, rest) := readExponent rest
    some (⟨negative, digitsValue (whole ++ fraction), exponent - fraction.length⟩, rest)

/-- The decimal number a whole text denotes: an optional sign and an unsigned
decimal, with nothing after it. -/
def Decimal.read? (cs : List Char) : Option Decimal :=
  let (negative, rest) := readSign cs
  match readUnsigned? negative rest with
  | some (d, []) => some d
  | _ => none

/-- The double a text denotes: a decimal number, or an infinity or NaN by name in
any letter case. -/
def read? (text : String) : Option Float :=
  match Decimal.read? text.toList with
  | some d => some d.toFloat
  | none =>
    let (negative, rest) := readSign text.toList
    let word := String.ofList (rest.map Char.toLower)
    if word = "inf" ∨ word = "infinity" then some (ofMagnitude negative infinityBits)
    else if word = "nan" then some nan
    else none

/-- What does not begin as a name does, behind its sign, is read as a decimal number or not at
all. -/
theorem read?_eq_of_head {cs : List Char}
    (h : ∀ c ∈ (readSign cs).2.head?, c.toLower ≠ 'i' ∧ c.toLower ≠ 'n') :
    read? (String.ofList cs) = (Decimal.read? cs).map Decimal.toFloat := by
  unfold read?
  rw [String.toList_ofList]
  generalize readSign cs = signed at h
  obtain ⟨negative, rest⟩ := signed
  have hword : ∀ word : String, word.toList.head? = some 'i' ∨ word.toList.head? = some 'n' →
      String.ofList (rest.map Char.toLower) ≠ word := by
    rintro word hhead rfl
    rw [String.toList_ofList, List.head?_map] at hhead
    rcases hhead with hhead | hhead
    · obtain ⟨c, hc, hlow⟩ := Option.map_eq_some_iff.mp hhead
      exact (h c hc).1 hlow
    · obtain ⟨c, hc, hlow⟩ := Option.map_eq_some_iff.mp hhead
      exact (h c hc).2 hlow
  cases Decimal.read? cs with
  | some d => rfl
  | none =>
    simp [hword "inf" (.inl (by decide)), hword "infinity" (.inl (by decide)),
      hword "nan" (.inr (by decide))]

end Tabular.Number

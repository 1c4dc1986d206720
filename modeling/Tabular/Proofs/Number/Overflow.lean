import Tabular.Proofs.Number.Arithmetic

/-!
# Numbers that are too large

A number is rounded to a finite double exactly if its magnitude is below `overflow`, which is half
a unit past the largest double (`isFinite_nearestTo_iff`). So no finite double reaches it, and a
result that lies between zero and a finite double is finite and stays between them
(`IsResult.between`).
-/
namespace Tabular.Number

/-- The significand of the largest double. -/
def fullSignificand : ℕ := 2 ^ 53 - 1

/-- The least magnitude that is rounded to an infinity: halfway between the largest double and
what would be the next one. -/
def overflow : ℚ := 2 ^ 1024 - 2 ^ 970

/-- Counted in the unit of the largest double. -/
theorem overflow_eq : overflow = (fullSignificand + 1 / 2) * 2 ^ (971 : ℤ) := by
  have hhigh : (2 : ℚ) ^ 1024 = 2 ^ 54 * 2 ^ 970 := pow_add 2 54 970
  have hunit : (2 : ℚ) ^ (971 : ℤ) = 2 ^ 970 * 2 := by
    rw [show (971 : ℤ) = (970 + 1 : ℕ) by rfl, zpow_natCast]
    exact pow_succ 2 970
  rw [overflow, hhigh, hunit, fullSignificand]
  generalize (2 : ℚ) ^ 970 = half
  norm_num
  ring

theorem overflow_div : overflow / 2 ^ (971 : ℤ) = fullSignificand + 1 / 2 := by
  rw [overflow_eq, mul_div_cancel_right₀ _ (zpow_ne_zero _ two_ne_zero)]

theorem overflow_lt : overflow < 2 ^ (971 + 53 : ℤ) := by
  have hpow : (0 : ℚ) < 2 ^ 970 := pow_pos two_pos _
  exact sub_lt_self (2 ^ 1024) hpow

theorem lt_overflow : (2 : ℚ) ^ (1023 : ℤ) < overflow := by
  rw [overflow_eq, show (1023 : ℤ) = 52 + 971 by rfl, zpow_add₀ two_ne_zero]
  refine mul_lt_mul_of_pos_right ?_ (zpow_pos two_pos _)
  rw [fullSignificand]
  norm_num

theorem overflow_pos : 0 < overflow := (zpow_pos two_pos 1023).trans lt_overflow

section
variable {x y : Float} {q : ℚ}

theorem unitOf_of_overflow (h : overflow ≤ q) : 971 ≤ unitOf q := by
  have hpos : 0 < q := overflow_pos.trans_le h
  have hlog := (Int.zpow_le_iff_le_log (b := 2) (by decide) hpos).mp
    ((le_of_lt lt_overflow).trans h)
  rw [unitOf]
  omega

/-- Past `overflow` the count of units has 54 bits, or the unit is too large. -/
theorem infinityBits_le_of_overflow {n : ℕ} (h : overflow ≤ q)
    (hn : IsRounded n (q / 2 ^ unitOf q)) :
    infinityBits ≤ (unitOf q + 1074).toNat * 2 ^ 52 + n := by
  have hinfinity : infinityBits = 2047 * 2 ^ 52 := rfl
  have hpos : 0 < q := overflow_pos.trans_le h
  have hunit := unitOf_of_overflow h
  have hlead : 2 ^ 52 ≤ n := (hn.bounds hpos).2.resolve_right (by omega)
  rcases hunit.eq_or_lt with heq | hlt
  · -- The number is at least halfway from the largest significand to the next one, which is even.
    have htie : IsRounded (fullSignificand + 1) (overflow / 2 ^ (971 : ℤ)) := by
      rw [overflow_div]
      exact isRounded_up le_rfl one_half_lt_one.le fun _ => by decide
    rw [← heq] at hn
    have hcarry := htie.mono hn (div_le_div_of_nonneg_right h (zpow_nonneg zero_le_two _))
    rw [fullSignificand] at hcarry
    omega
  · omega

theorem lt_infinityBits_of_lt_overflow {n : ℕ} (hpos : 0 < q) (h : q < overflow)
    (hn : IsRounded n (q / 2 ^ unitOf q)) :
    (unitOf q + 1074).toNat * 2 ^ 52 + n < infinityBits := by
  have hinfinity : infinityBits = 2047 * 2 ^ 52 := rfl
  have hunit : unitOf q ≤ 971 := unitOf_le hpos (by decide) (h.trans overflow_lt)
  have hbits := (hn.bounds hpos).1
  rcases hunit.eq_or_lt with heq | hlt
  · have hnear := (abs_le.mp hn.near).2
    have hhalf : q / 2 ^ (971 : ℤ) < fullSignificand + 1 / 2 := by
      rw [← overflow_div]
      exact div_lt_div_of_pos_right h (zpow_pos two_pos _)
    rw [heq] at hnear ⊢
    have hlt : (n : ℚ) < fullSignificand + 1 := by linarith
    have hn' : n < fullSignificand + 1 := by exact_mod_cast hlt
    rw [fullSignificand] at hn'
    omega
  · omega

/-- A number is rounded to a finite double exactly if it is below `overflow`. -/
theorem isFinite_nearestTo_iff : (nearestTo q).isFinite ↔ |q| < overflow := by
  rcases eq_or_ne q 0 with rfl | hq
  · rw [nearestTo_zero, abs_zero]
    exact iff_of_true isFinite_zero overflow_pos
  obtain ⟨negative, r, hr, rfl⟩ := exists_withSign hq
  rw [abs_withSign, abs_of_pos hr]
  constructor
  · intro hfinite
    obtain ⟨n, hn, hbits⟩ := exists_rounded hr hfinite
    by_contra h
    exact absurd hbits (not_lt.mpr (infinityBits_le_of_overflow (not_lt.mp h) hn))
  · intro h
    obtain ⟨n, hn⟩ := exists_isRounded (div_pos hr (zpow_pos two_pos (unitOf r)))
    exact (exact_nearestTo_of_rounded hr hn (lt_infinityBits_of_lt_overflow hr h hn) negative).1

/-- From `overflow` on a number is rounded to the infinity of its sign. -/
theorem nearestTo_of_overflow (h : overflow ≤ q) (negative : Bool) :
    nearestTo (withSign negative q) = ofMagnitude negative infinityBits := by
  have hq : 0 < q := overflow_pos.trans_le h
  obtain ⟨n, hn⟩ := exists_isRounded (div_pos hq (zpow_pos two_pos (unitOf q)))
  rw [nearestTo_of_rounded hq hn, min_eq_right (infinityBits_le_of_overflow h hn)]

theorem abs_exact_lt (hx : x.isFinite) : |Number.exact x| < overflow :=
  isFinite_nearestTo_iff.mp (exact_nearestTo_exact hx).1

theorem IsResult.isFinite_iff_lt (h : IsResult x q) : x.isFinite ↔ |q| < overflow :=
  h.isFinite_iff.trans isFinite_nearestTo_iff

/-- Rounding does not take a result past a double on its way from zero. -/
theorem IsResult.between (h : IsResult x q) (hy : y.isFinite) (hlow : 0 ≤ q)
    (hhigh : q ≤ Number.exact y) :
    x.isFinite ∧ 0 ≤ Number.exact x ∧ Number.exact x ≤ Number.exact y := by
  have hfinite : x.isFinite := by
    rw [h.isFinite_iff_lt, abs_of_nonneg hlow]
    exact hhigh.trans_lt ((le_abs_self _).trans_lt (abs_exact_lt hy))
  have hnearest := h.isNearest hfinite
  refine ⟨hfinite, hnearest.nonneg hlow, ?_⟩
  have hnear := (le_abs_self _).trans (hnearest.near y hy)
  rw [abs_of_nonneg (sub_nonneg.mpr hhigh)] at hnear
  linarith

/-! ## Rounding to a whole number -/

theorem two_pow_lt_overflow : (2 : ℚ) ^ 53 < overflow := by
  refine lt_of_le_of_lt ?_ lt_overflow
  rw [← zpow_natCast]
  exact zpow_le_zpow_right₀ one_le_two (by decide)

/-- What a finite double is rounded to is no larger than it, or has no more than 53 bits. -/
theorem rounded_lt_overflow {p : Parts} (hp : parts? x = some p) :
    (((2 * p.num + p.den) / (2 * p.den) : ℕ) : ℚ) < overflow := by
  obtain ⟨hsignificand, -, -, -, -⟩ := Parts.ofBits?_eq_some hp
  have hden := p.den_pos
  rcases le_or_gt 0 p.exponent with hwhole | hplaces
  · have hone : p.den = 1 := by
      rw [Parts.den, show (-p.exponent).toNat = 0 by omega]
      rfl
    have hself : (2 * p.num + p.den) / (2 * p.den) = p.num := by
      rw [hone]
      omega
    have hexact := abs_exact_lt (isFinite_of_parts hp)
    rw [abs_exact_of_parts hp, hone, Nat.cast_one, div_one] at hexact
    rwa [hself]
  · have hnum : p.num = p.significand := by
      rw [Parts.num, show p.exponent.toNat = 0 by omega]
      exact Nat.mul_one _
    have hle : (2 * p.num + p.den) / (2 * p.den) ≤ 2 ^ 53 := by
      refine Nat.div_le_of_le_mul ?_
      nlinarith
    refine lt_of_le_of_lt ?_ two_pow_lt_overflow
    exact_mod_cast hle

theorem isFinite_round (hx : x.isFinite) : (round x).isFinite := by
  obtain ⟨p, hp⟩ := exists_parts_of_isFinite hx
  have hlt := rounded_lt_overflow hp
  have hround : round x = nearest p.negative ((2 * p.num + p.den) / (2 * p.den)) 1 := by
    rw [round, hp]
  rw [hround]
  generalize (2 * p.num + p.den) / (2 * p.den) = n at hlt ⊢
  rcases Nat.eq_zero_or_pos n with rfl | hpos
  · have hzero : 0 < infinityBits := by decide
    exact isFinite_ofMagnitude hzero p.negative
  · rw [nearest_eq_nearestTo hpos one_pos, isFinite_nearestTo_iff, abs_withSign, Nat.cast_one,
      div_one, Nat.abs_cast]
    exact hlt

end
end Tabular.Number

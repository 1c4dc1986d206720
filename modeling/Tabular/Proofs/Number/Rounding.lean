import Tabular.Proofs.Number.Bits

/-!
# Rounding to the nearest double

The rounding step depends on the quotient alone, not on how it is written, and it
gives back every finite double exactly.
-/
namespace Tabular.Number

/-! ## The unit of a quotient -/

theorem twoTo_le_iff {num den : Nat} (hden : 0 < den) (e : Int) :
    den * twoTo e.toNat ≤ num * twoTo (-e).toNat ↔ (2 : ℚ) ^ e ≤ num / den := by
  have hd : (0 : ℚ) < den := by exact_mod_cast hden
  have hpow : (2 : ℚ) ^ e = twoTo e.toNat / twoTo (-e).toNat := by
    obtain ⟨n, rfl | rfl⟩ := e.eq_nat_or_neg <;> simp [twoTo]
  have htwo : (0 : ℚ) < twoTo (-e).toNat := by exact_mod_cast twoTo_pos _
  rw [hpow, div_le_div_iff₀ htwo hd, mul_comm (den : Nat)]
  norm_cast

theorem log2_bounds {n : Nat} (hn : 0 < n) :
    (2 : ℚ) ^ (n.log2 : ℤ) ≤ n ∧ (n : ℚ) < 2 ^ ((n.log2 : ℤ) + 1) := by
  constructor
  · rw [zpow_natCast]
    exact_mod_cast Nat.log2_self_le (Nat.ne_of_gt hn)
  · have h : ((n.log2 : ℤ) + 1) = ((n.log2 + 1 : ℕ) : ℤ) := by push_cast; rfl
    rw [h, zpow_natCast]
    exact_mod_cast Nat.lt_log2_self

/-- The logarithm of a quotient is the difference of the logarithms or one less. -/
theorem log_quotient {num den : Nat} (hnum : 0 < num) (hden : 0 < den) :
    (num.log2 : ℤ) - den.log2 - 1 ≤ Int.log 2 ((num : ℚ) / den) ∧
      Int.log 2 ((num : ℚ) / den) ≤ (num.log2 : ℤ) - den.log2 := by
  have hn : (0 : ℚ) < num := by exact_mod_cast hnum
  have hd : (0 : ℚ) < den := by exact_mod_cast hden
  have hq : (0 : ℚ) < num / den := by positivity
  have htwo : (2 : ℚ) ≠ 0 := by norm_num
  have hpos : ∀ e : ℤ, (0 : ℚ) ≤ ((2 : ℕ) : ℚ) ^ e := fun e => zpow_nonneg (by norm_num) e
  obtain ⟨hnum_le, hnum_lt⟩ := log2_bounds hnum
  obtain ⟨hden_le, hden_lt⟩ := log2_bounds hden
  constructor
  · rw [← Int.zpow_le_iff_le_log (by decide) hq, le_div_iff₀ hd]
    calc ((2 : ℕ) : ℚ) ^ ((num.log2 : ℤ) - den.log2 - 1) * den
        ≤ ((2 : ℕ) : ℚ) ^ ((num.log2 : ℤ) - den.log2 - 1) * 2 ^ ((den.log2 : ℤ) + 1) :=
          mul_le_mul_of_nonneg_left (le_of_lt hden_lt) (hpos _)
      _ = 2 ^ (num.log2 : ℤ) := by
          rw [Nat.cast_ofNat, ← zpow_add₀ htwo]
          congr 1
          omega
      _ ≤ num := hnum_le
  · refine Int.lt_add_one_iff.mp ?_
    rw [← Int.lt_zpow_iff_log_lt (by decide) hq, div_lt_iff₀ hd]
    calc (num : ℚ) < 2 ^ ((num.log2 : ℤ) + 1) := hnum_lt
      _ = ((2 : ℕ) : ℚ) ^ ((num.log2 : ℤ) - den.log2 + 1) * 2 ^ (den.log2 : ℤ) := by
          rw [Nat.cast_ofNat, ← zpow_add₀ htwo]
          congr 1
          omega
      _ ≤ ((2 : ℕ) : ℚ) ^ ((num.log2 : ℤ) - den.log2 + 1) * den :=
          mul_le_mul_of_nonneg_left hden_le (hpos _)

/-- The unit has 52 places below the leading place of the quotient, or is the least a
double has. -/
theorem unitExponent_eq {num den : Nat} (hnum : 0 < num) (hden : 0 < den) :
    unitExponent num den = max (Int.log 2 ((num : ℚ) / den) - 52) (-1074) := by
  have hn : (0 : ℚ) < num := by exact_mod_cast hnum
  have hd : (0 : ℚ) < den := by exact_mod_cast hden
  have hq : (0 : ℚ) < num / den := by positivity
  obtain ⟨hlow, hhigh⟩ := log_quotient hnum hden
  have hfits := @twoTo_le_iff num den hden (num.log2 - den.log2)
  have hle := @Int.zpow_le_iff_le_log ℚ _ _ _ _ 2 (by decide) (num.log2 - den.log2) _ hq
  have hguess : 52 + ((num.log2 : ℤ) - den.log2 - 52) = num.log2 - den.log2 := by omega
  simp only [unitExponent, hguess, hfits.trans hle]
  split <;> omega

/-! ## Rounding a quotient -/

theorem roundEven_mul_left {k : Nat} (hk : 0 < k) (num den : Nat) :
    roundEven (k * num) (k * den) = roundEven num den := by
  have hlt : k * den < 2 * (k * (num % den)) ↔ den < 2 * (num % den) := by
    rw [Nat.mul_left_comm]
    exact Nat.mul_lt_mul_left hk
  have heq : 2 * (k * (num % den)) = k * den ↔ 2 * (num % den) = den := by
    rw [Nat.mul_left_comm]
    exact Nat.mul_right_inj (Nat.ne_of_gt hk)
  simp only [roundEven, Nat.mul_div_mul_left _ _ hk, Nat.mul_mod_mul_left, hlt, heq]

/-- Equal quotients are rounded to the same whole number. -/
theorem roundEven_congr {num den num' den' : Nat} (hden : 0 < den) (hden' : 0 < den')
    (h : num * den' = num' * den) : roundEven num den = roundEven num' den' := by
  rw [← roundEven_mul_left hden' num den, ← roundEven_mul_left hden num' den',
    Nat.mul_comm den' num, h, Nat.mul_comm den' den, Nat.mul_comm num' den]

theorem roundEven_exact {k : Nat} (hk : 0 < k) (n : Nat) : roundEven (n * k) k = n := by
  have h := roundEven_mul_left hk n 1
  rw [Nat.mul_comm k n, Nat.mul_one] at h
  rw [h]
  simp [roundEven, Nat.mod_one]

/-- Equal quotients are rounded to the same double. -/
theorem nearestBits_congr {num den num' den' : Nat} (hden : 0 < den) (hden' : 0 < den')
    (h : num * den' = num' * den) : nearestBits num den = nearestBits num' den' := by
  rcases Nat.eq_zero_or_pos num with rfl | hnum
  · have h0 : num' = 0 := by
      rw [Nat.zero_mul] at h
      exact (Nat.mul_eq_zero.mp h.symm).resolve_right (Nat.ne_of_gt hden)
    rw [h0]
    simp [nearestBits]
  have hnum' : 0 < num' := by
    refine Nat.pos_of_ne_zero ?_
    intro h0
    rw [h0, Nat.zero_mul] at h
    exact absurd h (Nat.ne_of_gt (Nat.mul_pos hnum hden'))
  have hq : (num : ℚ) / den = num' / den' := by
    rw [div_eq_div_iff (by exact_mod_cast Nat.ne_of_gt hden) (by exact_mod_cast Nat.ne_of_gt hden')]
    exact_mod_cast h
  have hu : unitExponent num den = unitExponent num' den' := by
    rw [unitExponent_eq hnum hden, unitExponent_eq hnum' hden', hq]
  have hr : ∀ unit : Int,
      roundEven (num * twoTo (-unit).toNat) (den * twoTo unit.toNat) =
        roundEven (num' * twoTo (-unit).toNat) (den' * twoTo unit.toNat) := by
    intro unit
    refine roundEven_congr (Nat.mul_pos hden (twoTo_pos _)) (Nat.mul_pos hden' (twoTo_pos _)) ?_
    rw [Nat.mul_mul_mul_comm, h, Nat.mul_mul_mul_comm]
  simp only [nearestBits, Nat.ne_of_gt hnum, Nat.ne_of_gt hnum', if_false, hu, hr]

/-! ## Exact doubles -/

/-- What the parts of a bit pattern are: a significand of 53 bits, shorter only at the
least exponent, and the pattern without its sign is made of the two. -/
theorem Parts.ofBits?_eq_some {bits : Nat} {p : Parts} (h : Parts.ofBits? bits = some p) :
    p.significand < 2 ^ 53 ∧ -1074 ≤ p.exponent ∧ p.exponent ≤ 971 ∧
      (2 ^ 52 ≤ p.significand ∨ p.exponent = -1074) ∧
      bits % 2 ^ 63 = (p.exponent + 1074).toNat * 2 ^ 52 + p.significand := by
  have hdiv : bits / 2 ^ 52 / 2 ^ 11 = bits / 2 ^ 63 := Nat.div_div_eq_div_mul bits _ _
  simp only [Parts.ofBits?] at h
  split at h
  · cases h
  · split at h
    · cases h
      simp only [twoTo, Nat.pow_eq] at *
      exact ⟨by omega, by omega, by omega, .inr trivial, by omega⟩
    · cases h
      simp only [twoTo, Nat.pow_eq] at *
      exact ⟨by omega, by omega, by omega, .inl (by omega), by omega⟩

theorem Parts.den_pos (p : Parts) : 0 < p.den := twoTo_pos _

theorem Parts.num_div_den (p : Parts) : (p.num : ℚ) / p.den = p.significand * 2 ^ p.exponent := by
  simp only [Parts.num, Parts.den]
  obtain ⟨n, hn | hn⟩ := p.exponent.eq_nat_or_neg <;> simp [hn, twoTo, div_eq_mul_inv]

theorem Parts.log_value {p : Parts} (hs : 0 < p.significand) :
    Int.log 2 ((p.num : ℚ) / p.den) = p.significand.log2 + p.exponent := by
  have hsig : (0 : ℚ) < p.significand := by exact_mod_cast hs
  have hpow : (0 : ℚ) < 2 ^ p.exponent := zpow_pos (by norm_num) _
  obtain ⟨hle, hlt⟩ := log2_bounds hs
  have hq : (0 : ℚ) < p.significand * 2 ^ p.exponent := mul_pos hsig hpow
  have htwo : (2 : ℚ) ≠ 0 := by norm_num
  rw [p.num_div_den]
  refine le_antisymm (Int.lt_add_one_iff.mp ?_) ?_
  · rw [← Int.lt_zpow_iff_log_lt (by decide) hq, Nat.cast_ofNat, add_right_comm,
      zpow_add₀ htwo]
    exact mul_lt_mul_of_pos_right hlt hpow
  · rw [← Int.zpow_le_iff_le_log (by decide) hq, Nat.cast_ofNat, zpow_add₀ htwo]
    exact mul_le_mul_of_nonneg_right hle (le_of_lt hpow)

/-- A double is nearest to its own value. -/
theorem nearestBits_parts {bits : Nat} {p : Parts} (h : Parts.ofBits? bits = some p)
    (hs : p.significand ≠ 0) : nearestBits p.num p.den = bits % twoTo 63 := by
  have hpos := Nat.pos_of_ne_zero hs
  have hnum : 0 < p.num := Nat.mul_pos hpos (twoTo_pos _)
  obtain ⟨hsig, hlow, hhigh, hlead, hbits⟩ := Parts.ofBits?_eq_some h
  have hunit : unitExponent p.num p.den = p.exponent := by
    rw [unitExponent_eq hnum p.den_pos, Parts.log_value hpos]
    have hlt := (Nat.log2_lt hs).mpr hsig
    rcases hlead with hlead | hlead
    · have hge := (Nat.le_log2 hs).mpr hlead
      omega
    · omega
  have hround : roundEven (p.num * twoTo (-p.exponent).toNat)
      (p.den * twoTo p.exponent.toNat) = p.significand := by
    rw [Parts.num, Nat.mul_assoc, Nat.mul_comm (twoTo p.exponent.toNat)]
    exact roundEven_exact (Nat.mul_pos (twoTo_pos _) (twoTo_pos _)) _
  simp only [nearestBits, Nat.ne_of_gt hnum, if_false, hunit, hround]
  simp only [infinityBits, twoTo, Nat.pow_eq, hbits]
  omega

end Tabular.Number

import Tabular.Proofs.Number.Nearest

/-!
# Rounding of decoded doubles

Core computes a significand with guard bits, which tell how far below the number it lies
(`Represents`), shifts it to the unit of the number and rounds it there. Encoded, that is the double
nearest to the number (`ofModel_roundWithAccuracy`, `ofModel_normalize`).
-/
namespace Tabular.Number
open Float.Model Float.Model.UnpackedFloat

/-! ## Encoding -/

/-- The sign as it is encoded. -/
def isNegative : Sign → Bool
  | .negative => true
  | .positive => false

theorem toNat_packComponents (s : Sign) (e : BitVec 11) (m : BitVec 52) :
    (packComponents Format.binary64 s e m).toNat =
      (if isNegative s then 2 ^ 63 else 0) + (e.toNat * 2 ^ 52 + m.toNat) := by
  have happend {i j : ℕ} (x : BitVec i) (y : BitVec j) :
      (x ++ y).toNat = x.toNat * 2 ^ j + y.toNat := by
    rw [BitVec.toNat_append, Nat.mul_comm, Nat.two_pow_add_eq_or_of_lt y.isLt,
      Nat.shiftLeft_eq, Nat.mul_comm]
  rw [packComponents, happend, happend]
  cases s with
  | negative =>
    show (1 * 2 ^ 11 + e.toNat) * 2 ^ 52 + m.toNat = 2 ^ 63 + _
    omega
  | positive =>
    show (0 * 2 ^ 11 + e.toNat) * 2 ^ 52 + m.toNat = 0 + _
    omega

/-- What is encoded is the sign and the bits of the magnitude. -/
theorem ofModel_pack {u : UnpackedFloat} {s : Sign} {bits : ℕ}
    (h : (UnpackedFloat.pack Format.binary64 u).toNat =
      (if isNegative s then 2 ^ 63 else 0) + bits) :
    Float.ofModel (.pack u) = ofMagnitude (isNegative s) bits := by
  have htwo : twoTo 63 = 2 ^ 63 := rfl
  have hsum : (if isNegative s then bits + 2 ^ 63 else bits) =
      (if isNegative s then 2 ^ 63 else 0) + bits := by
    split
    · exact Nat.add_comm _ _
    · exact (Nat.zero_add _).symm
  rw [ofMagnitude, htwo, hsum, ← h]
  refine Eq.trans (Float.ofBits_toBits _).symm (congrArg Float.ofBits ?_)
  have hlt := (UnpackedFloat.pack Format.binary64 u).isLt
  exact UInt64.toNat_inj.mp (UInt64.toNat_ofNat_of_lt hlt).symm

section
variable {s : Sign} {m : ℕ} {e : ℤ} {h : 0 < m}

theorem ofModel_pack_zero (s : Sign) :
    Float.ofModel (.pack (.zero s)) = ofMagnitude (isNegative s) 0 :=
  ofModel_pack (toNat_packComponents s 0 0)

/-- A canonical significand and exponent are encoded as they are, or as an infinity if the exponent
is too large. -/
theorem ofModel_pack_finite (hc : Canonical m e) : Float.ofModel (.pack (.finite s m e h)) =
    ofMagnitude (isNegative s) (min ((e + 1074).toNat * 2 ^ 52 + m) infinityBits) := by
  have hinfinity : infinityBits = 2047 * 2 ^ 52 := rfl
  have hmantissa : Format.binary64.mantissaBits = 53 := rfl
  obtain ⟨hlt, hlow, hlead⟩ := hc
  refine ofModel_pack ?_
  have hfield : (e + (Format.binary64.exponentBias : ℕ) +
      (Format.binary64.mantissaBitsWithoutImplicit : ℕ)).toNat = (e + 1075).toNat := by
    show (e + (1023 : ℕ) + (52 : ℕ)).toNat = _
    omega
  simp only [UnpackedFloat.pack, hfield, hmantissa]
  split
  · rename_i hover
    change 2048 ≤ _ at hover
    refine (toNat_packComponents s (-1#11) 0).trans ?_
    rw [min_eq_right (by omega)]
    rfl
  · rename_i hroom
    change ¬ 2048 ≤ _ at hroom
    rw [min_eq_left (by omega)]
    split
    · rename_i hlog
      have hle : 2 ^ 52 ≤ m := by
        have := Nat.log2_self_le (Nat.ne_of_gt h)
        rwa [Nat.succ_injective hlog] at this
      refine (toNat_packComponents s _ _).trans (congrArg _ ?_)
      rw [BitVec.toNat_ofNat, BitVec.toNat_ofNat]
      omega
    · rename_i hlog
      have hsmall : m < 2 ^ 52 := by
        by_contra hge
        exact hlog (congrArg (· + 1) ((Nat.log2_eq_iff (Nat.ne_of_gt h)).mpr ⟨not_lt.mp hge, hlt⟩))
      refine (toNat_packComponents s _ _).trans (congrArg _ ?_)
      rw [BitVec.toNat_ofNat, BitVec.toNat_ofNat]
      omega
end

/-! ## Guard bits -/

/-- The number that a significand with guard bits was cut off from. -/
def Represents (em : ExtendedMantissa) (r : ℚ) : Prop :=
  ∃ x : ℚ, 0 ≤ x ∧ x < 1 / 2 ∧ (em.stickyBit = true ↔ 0 < x) ∧
    r = em.mantissa + ((if em.roundBit then 1 / 2 else 0) + x)

section
variable {em : ExtendedMantissa} {r : ℚ}

theorem Represents.shiftRightOne (h : Represents em r) : Represents em.shiftRightOne (r / 2) := by
  obtain ⟨m, round, sticky⟩ := em
  obtain ⟨x, hlow, hhigh, hsticky, rfl⟩ := h
  dsimp only at hsticky ⊢
  have hround : (0 : ℚ) ≤ (if round then 1 / 2 else 0) ∧
      ((if round then 1 / 2 else 0) : ℚ) ≤ 1 / 2 ∧
      (round = true ↔ (0 : ℚ) < if round then 1 / 2 else 0) := by
    cases round <;> norm_num
  generalize (if round then (1 / 2 : ℚ) else 0) = g at *
  refine ⟨(g + x) / 2, by linarith, by linarith, ?_, ?_⟩
  · show (round || sticky) = true ↔ _
    rw [Bool.or_eq_true, hsticky, hround.2.2]
    constructor
    · rintro (h | h) <;> linarith
    · intro h
      by_contra hnone
      obtain ⟨hg, hx⟩ := not_or.mp hnone
      linarith
  · have hm : (m : ℚ) = 2 * (m / 2 : ℕ) + (m % 2 : ℕ) := by
      exact_mod_cast (Nat.div_add_mod m 2).symm
    show ((m : ℚ) + (g + x)) / 2 = (m / 2 : ℕ) + ((if (m % 2 != 0) = true then 1 / 2 else 0) + _)
    rw [hm]
    rcases Nat.mod_two_eq_zero_or_one m with h | h
    · rw [h]
      norm_num
      ring
    · rw [h]
      norm_num
      ring

theorem Represents.shiftRight (h : Represents em r) (k : ℕ) :
    Represents (em >>> k) (r / 2 ^ k) := by
  show Represents (k.repeat ExtendedMantissa.shiftRightOne em) _
  induction k with
  | zero => simpa [Nat.repeat] using h
  | succ k ih =>
    rw [Nat.repeat, pow_succ, ← div_div]
    exact ih.shiftRightOne

end
/-! ## Rounding with guard bits -/

/-- Guard bits tell to which side of the half a number lies. -/
theorem Represents.roundedMantissa {em : ExtendedMantissa} {r : ℚ} (h : Represents em r) :
    IsRounded em.roundedMantissa r := by
  obtain ⟨m, round, sticky⟩ := em
  obtain ⟨x, hlow, hhigh, hsticky, rfl⟩ := h
  dsimp only at hsticky ⊢
  cases round with
  | false =>
    have hm : (ExtendedMantissa.mk m false sticky).roundedMantissa = m := by
      cases sticky <;> rfl
    rw [hm]
    exact isRounded_down (by simpa using hlow) (by simpa using le_of_lt hhigh)
      (fun h => absurd h (by simpa using ne_of_lt hhigh))
  | true =>
    cases sticky with
    | true =>
      have hx : 0 < x := hsticky.mp rfl
      refine isRounded_up (n := m) ?_ ?_ fun h => ?_
      · simpa using hlow
      · simp only [if_true]
        linarith
      · simp only [if_true] at h
        linarith
    | false =>
      have hx : x = 0 := le_antisymm (not_lt.mp fun h => Bool.false_ne_true (hsticky.mpr h)) hlow
      subst hx
      show IsRounded (m + m % 2) _
      rcases Nat.mod_two_eq_zero_or_one m with h | h
      · rw [h]
        exact isRounded_down (by norm_num) (by norm_num) fun _ => h
      · rw [h]
        exact isRounded_up (by norm_num) (by norm_num) fun _ => by omega

theorem represents_exact (m : ℕ) :
    Represents (ExtendedMantissa.ofMantissaAndAccuracy m .exact) m :=
  ⟨0, le_rfl, by norm_num, by simp [ExtendedMantissa.ofMantissaAndAccuracy],
    by simp [ExtendedMantissa.ofMantissaAndAccuracy]⟩

/-- The remainder of a division tells the guard bits. -/
theorem represents_fraction {num den : ℕ} (hlt : num < den) (m : ℕ) :
    Represents (ExtendedMantissa.ofMantissaAndAccuracy m (accuracyOfFraction num den))
      (m + num / den) := by
  have hd : (0 : ℚ) < den := by exact_mod_cast Nat.zero_lt_of_lt hlt
  have hnonneg : (0 : ℚ) ≤ num / den := by positivity
  have hlt1 : (num : ℚ) / den < 1 := (div_lt_one hd).mpr (by exact_mod_cast hlt)
  have hhalf : compare (2 * num) den = compare ((num : ℚ) / den) (1 / 2) := by
    have hscale : (num : ℚ) / den * (2 * den) = (2 * num : ℕ) := by
      push_cast
      field_simp
    have hscale' : (1 : ℚ) / 2 * (2 * den) = den := by ring
    rw [← cmp_eq_compare, ← cmp_eq_compare,
      ← cmp_mul_pos_right (mul_pos two_pos hd) ((num : ℚ) / den), hscale, hscale']
    exact (Nat.strictMono_cast.cmp_map_eq _ _).symm
  unfold accuracyOfFraction
  split
  · rename_i h0
    rw [h0, Nat.cast_zero, zero_div, add_zero]
    exact represents_exact m
  · rename_i h0
    have hpos : (0 : ℚ) < num / den := div_pos (by exact_mod_cast Nat.pos_of_ne_zero h0) hd
    rw [hhalf]
    generalize (num : ℚ) / den = x at *
    rcases lt_trichotomy x (1 / 2) with h | h | h
    · rw [compare_lt_iff_lt.mpr h]
      exact ⟨x, hnonneg, h, by simp [ExtendedMantissa.ofMantissaAndAccuracy, hpos],
        by simp [ExtendedMantissa.ofMantissaAndAccuracy]⟩
    · rw [compare_eq_iff_eq.mpr h]
      exact ⟨0, le_rfl, by norm_num, by simp [ExtendedMantissa.ofMantissaAndAccuracy],
        by simp [ExtendedMantissa.ofMantissaAndAccuracy, h]⟩
    · rw [compare_gt_iff_gt.mpr h]
      exact ⟨x - 1 / 2, by linarith, by linarith,
        by simp only [ExtendedMantissa.ofMantissaAndAccuracy, true_iff]; linarith,
        by simp [ExtendedMantissa.ofMantissaAndAccuracy]⟩

/-! ## Shifting to the unit -/

section
variable {q : ℚ} {m n : ℕ} {e u : ℤ} {acc : Accuracy}

theorem targetExponent_eq (x : ℤ) : Format.binary64.targetExponent x = max (x - 53) (-1074) := rfl

theorem le_unitOf (hq : 0 < q) (h : (2 : ℚ) ^ (e + 52) ≤ q ∨ e ≤ -1074) : e ≤ unitOf q := by
  have hlog := h.imp_left (Int.zpow_le_iff_le_log (b := 2) (by decide) hq).mp
  rw [unitOf]
  omega

theorem Represents.mantissa_le {em : ExtendedMantissa} {r : ℚ} (h : Represents em r) :
    (em.mantissa : ℚ) ≤ r ∧ r < em.mantissa + 1 := by
  obtain ⟨x, hlow, hhigh, -, rfl⟩ := h
  have hround : (0 : ℚ) ≤ (if em.roundBit then 1 / 2 else 0) ∧
      ((if em.roundBit then 1 / 2 else 0) : ℚ) ≤ 1 / 2 := by
    cases em.roundBit <;> norm_num
  generalize (if em.roundBit then (1 / 2 : ℚ) else 0) = g at *
  exact ⟨by linarith, by linarith⟩

/-- A significand with enough bits is shifted to the unit of its number. -/
theorem shiftToTargetExponent_unitOf (hq : 0 < q)
    (h : Represents (ExtendedMantissa.ofMantissaAndAccuracy m acc) (q / 2 ^ e))
    (he : e ≤ unitOf q) :
    (shiftToTargetExponent Format.binary64 m e acc).2 = unitOf q ∧
      Represents (shiftToTargetExponent Format.binary64 m e acc).1 (q / 2 ^ unitOf q) := by
  have hpow : (0 : ℚ) < 2 ^ e := zpow_pos two_pos e
  obtain ⟨hle, hlt⟩ := h.mantissa_le
  rw [mantissa_ofMantissaAndAccuracy] at hle hlt
  have htarget : e + (max (m.log2 + 1 + e - 53) (-1074) - e).toNat = unitOf q := by
    rcases Nat.eq_zero_or_pos m with rfl | hm
    -- The number is less than the last place, so that only zeros are shifted.
    · have hlog : Int.log 2 q < e := by
        refine (Int.lt_zpow_iff_log_lt (b := 2) (by decide) hq).mp ?_
        simpa [div_lt_one hpow] using hlt
      rw [Nat.log2_zero]
      rw [unitOf] at he ⊢
      omega
    · obtain ⟨hlow, hhigh⟩ := log2_bounds hm
      have hlog : Int.log 2 q = m.log2 + e := by
        refine le_antisymm (Int.lt_add_one_iff.mp ?_) ?_
        · refine (Int.lt_zpow_iff_log_lt (b := 2) (by decide) hq).mp ?_
          rw [add_right_comm, zpow_add₀ (by norm_num), ← div_lt_iff₀ (by exact_mod_cast hpow)]
          have hnext : m + 1 ≤ 2 ^ (m.log2 + 1) := Nat.lt_log2_self
          exact hlt.trans_le (by exact_mod_cast hnext)
        · refine (Int.zpow_le_iff_le_log (b := 2) (by decide) hq).mp ?_
          rw [zpow_add₀ (by norm_num), ← le_div_iff₀ (by exact_mod_cast hpow)]
          exact_mod_cast hlow.trans hle
      rw [unitOf, hlog] at he ⊢
      omega
  have hshift := h.shiftRight (max (m.log2 + 1 + e - 53) (-1074) - e).toNat
  rw [div_div, ← zpow_natCast, ← zpow_add₀ two_ne_zero, htarget] at hshift
  exact ⟨htarget, hshift⟩

/-- A carry to 54 bits leaves a zero, which is shifted out. -/
theorem shiftToTargetExponent_carried (hn : n ≤ 2 ^ 53) (hu : -1074 ≤ u)
    (hlead : 2 ^ 52 ≤ n ∨ u = -1074) : ∃ m e,
      (shiftToTargetExponent Format.binary64 n u .exact).1.mantissa = m ∧
      (shiftToTargetExponent Format.binary64 n u .exact).2 = e ∧ Canonical m e ∧
      (e + 1074).toNat * 2 ^ 52 + m = (u + 1074).toNat * 2 ^ 52 + n := by
  rcases Nat.lt_or_eq_of_le hn with hlt | rfl
  · have hlog : n.log2 ≤ 52 := by
      rcases Nat.eq_zero_or_pos n with rfl | hpos
      · exact Nat.zero_le 52
      · exact Nat.le_of_lt_succ ((Nat.log2_lt (Nat.ne_of_gt hpos)).mpr hlt)
    have hshift : (max (n.log2 + 1 + u - 53) (-1074) - u).toNat = 0 := by omega
    refine ⟨n, u, ?_, ?_, ⟨hlt, hu, hlead⟩, rfl⟩
    · show (ExtendedMantissa.ofMantissaAndAccuracy n .exact >>>
        (max (n.log2 + 1 + u - 53) (-1074) - u).toNat).mantissa = n
      rw [hshift]
      rfl
    · show u + (max (n.log2 + 1 + u - 53) (-1074) - u).toNat = u
      rw [hshift]
      exact add_zero u
  · have hshift : (max ((2 ^ 53 : ℕ).log2 + 1 + u - 53) (-1074) - u).toNat = 1 := by
      rw [Nat.log2_two_pow]
      omega
    refine ⟨2 ^ 52, u + 1, ?_, ?_, ⟨by decide, by omega, .inl le_rfl⟩, by omega⟩
    · show (ExtendedMantissa.ofMantissaAndAccuracy (2 ^ 53) .exact >>>
        (max ((2 ^ 53 : ℕ).log2 + 1 + u - 53) (-1074) - u).toNat).mantissa = 2 ^ 52
      rw [hshift]
      rfl
    · show u + (max ((2 ^ 53 : ℕ).log2 + 1 + u - 53) (-1074) - u).toNat = u + 1
      rw [hshift]
      rfl

/-- A significand with enough bits is rounded to the double nearest to its number. -/
theorem ofModel_roundWithAccuracy (hq : 0 < q)
    (h : Represents (ExtendedMantissa.ofMantissaAndAccuracy m acc) (q / 2 ^ e))
    (he : e ≤ unitOf q) (s : Sign) :
    Float.ofModel (.pack (roundWithAccuracy Format.binary64 s m e acc)) =
      nearestTo (withSign (isNegative s) q) := by
  obtain ⟨hunit, hrepresents⟩ := shiftToTargetExponent_unitOf hq h he
  have hrounded := hrepresents.roundedMantissa
  obtain ⟨hn, hlead⟩ := hrounded.bounds hq
  obtain ⟨m', e', hmantissa, hexponent, hcanonical, hbits⟩ :=
    shiftToTargetExponent_carried hn (neg_le_unitOf q) hlead
  rw [nearestTo_of_rounded hq hrounded, ← hbits]
  unfold roundWithAccuracy
  generalize shiftToTargetExponent Format.binary64 m e acc = first at *
  rw [← hunit] at hmantissa hexponent
  dsimp only
  rw [hmantissa, hexponent]
  split
  · rename_i hzero
    obtain ⟨-, -, hfull | hleast⟩ := hcanonical
    · rw [hzero] at hfull
      exact absurd hfull (by decide)
    · rw [ofModel_pack_zero, hzero, hleast]
      rfl
  · exact ofModel_pack_finite hcanonical

theorem ofModel_round (hm : 0 < m) (e : ℤ) (s : Sign) :
    Float.ofModel (.pack (UnpackedFloat.round Format.binary64 s m e)) =
      nearestTo (withSign (isNegative s) (m * 2 ^ e)) := by
  have hq : (0 : ℚ) < m * 2 ^ e := mul_pos (by exact_mod_cast hm) (zpow_pos two_pos e)
  have hlog : Int.log 2 ((m : ℚ) * 2 ^ e) = m.log2 + e := by
    rw [← Parts.log_value (p := ⟨false, m, e⟩) hm, Parts.num_div_den]
  unfold UnpackedFloat.round
  rw [targetExponent_eq]
  simp only [totalExponent, decreaseExponent, Nat.shiftLeft_eq]
  generalize hk : (e - max ((m.log2 : ℤ) + 1 + e - 53) (-1074)).toNat = k
  have hscaled : (m : ℚ) * 2 ^ e / 2 ^ (e - (k : ℤ)) = (m * 2 ^ k : ℕ) := by
    rw [mul_div_assoc, ← zpow_sub₀ two_ne_zero, sub_sub_cancel, zpow_natCast]
    push_cast
    rfl
  refine ofModel_roundWithAccuracy hq (hscaled ▸ represents_exact _) ?_ s
  rw [unitOf, hlog]
  omega

theorem ofModel_normalize (k e : ℤ) :
    Float.ofModel (.pack (UnpackedFloat.normalize Format.binary64 k e .positive)) =
      nearestTo (k * 2 ^ e) := by
  unfold UnpackedFloat.normalize
  rcases lt_trichotomy k 0 with h | rfl | h
  · obtain ⟨m, rfl⟩ : ∃ m : ℕ, k = -m := ⟨(-k).toNat, by omega⟩
    rw [Int.compare_eq_lt.mpr h]
    show Float.ofModel (.pack (UnpackedFloat.round _ _ (-(-(m : ℤ))).toNat _)) = _
    rw [neg_neg, Int.toNat_natCast, ofModel_round (by omega)]
    show nearestTo (-((m : ℚ) * 2 ^ e)) = _
    rw [Int.cast_neg, neg_mul, Int.cast_natCast]
  · rw [Int.cast_zero, zero_mul, nearestTo_zero]
    show Float.ofModel (.pack (.zero .positive)) = 0.0
    decide +kernel
  · obtain ⟨m, rfl⟩ : ∃ m : ℕ, k = m := ⟨k.toNat, by omega⟩
    rw [Int.compare_eq_gt.mpr h]
    show Float.ofModel (.pack (UnpackedFloat.round _ _ (m : ℤ).toNat _)) = _
    rw [Int.toNat_natCast, ofModel_round (by omega)]
    rfl

end

end Tabular.Number

import Tabular.Proofs.Number.Guard
import Tabular.Proofs.Number.Whole

/-!
# Arithmetic on doubles

What core computes from finite doubles is the double nearest to the exact result, but for the sign
of a zero (`isResult_add`, `isResult_sub`, `isResult_mul`, `isResult_div`). A result that fits 53
bits is exact, and a result that is halved need not be rounded first (`nearestTo_half`).
-/
namespace Tabular.Number
open Float.Model Float.Model.UnpackedFloat

/-! ## Results of operations -/

/-- A double is what an operation gives whose exact result is the number: the double nearest to
it, except that a zero may have either sign. -/
def IsResult (x : Float) (q : ℚ) : Prop := x = nearestTo q ∨ q = 0 ∧ IsNegativeZero x

section
variable {u v : UnpackedFloat}

theorem unpackedValue_zero (s : Sign) : unpackedValue (.zero s) = 0 := rfl

theorem unpackedValue_finite (s : Sign) {m : ℕ} (e : ℤ) (h : 0 < m) :
    unpackedValue (.finite s m e h) = withSign (isNegative s) (m * 2 ^ e) := by
  cases s with
  | positive => rfl
  | negative =>
    show ((-(m : ℤ) : ℤ) : ℚ) * 2 ^ e = -(m * 2 ^ e)
    rw [Int.cast_neg, neg_mul, Int.cast_natCast]

/-- A decoded number is encoded as the double nearest to it. -/
theorem isResult_pack (hu : IsDecoded u) :
    IsResult (Float.ofModel (.pack u)) (unpackedValue u) := by
  cases hu using IsDecoded.elim with
  | zero s =>
    cases s with
    | positive => exact .inl (nearestTo_zero ▸ by decide +kernel)
    | negative => exact .inr ⟨rfl, rfl⟩
  | finite s m e h hu =>
    have hq : (0 : ℚ) < m * 2 ^ e := mul_pos (by exact_mod_cast h) (zpow_pos two_pos e)
    have hscaled : (m : ℚ) * 2 ^ e / 2 ^ e = m :=
      mul_div_cancel_right₀ _ (zpow_ne_zero e two_ne_zero)
    obtain ⟨hlt, hlow, hlead⟩ := hu
    have hunit : unitOf ((m : ℚ) * 2 ^ e) = e :=
      unitOf_eq hq hlow (by rw [hscaled]; exact_mod_cast hlt)
        (hlead.imp_left fun h => by rw [hscaled]; exact_mod_cast h)
    have hrounded : IsRounded m ((m : ℚ) * 2 ^ e / 2 ^ unitOf ((m : ℚ) * 2 ^ e)) := by
      rw [hunit, hscaled]
      exact isRounded_self m
    refine .inl ?_
    rw [unpackedValue_finite, nearestTo_of_rounded hq hrounded, hunit]
    exact ofModel_pack_finite ⟨hlt, hlow, hlead⟩

theorem isResult_add_unpacked (hu : IsDecoded u) (hv : IsDecoded v) :
    IsResult (Float.ofModel (.pack (UnpackedFloat.add Format.binary64 u v)))
      (unpackedValue u + unpackedValue v) := by
  cases hu using IsDecoded.elim with
  | zero s =>
    rw [unpackedValue_zero, zero_add]
    cases hv using IsDecoded.elim with
    | finite t n f hn hv => exact isResult_pack hv
    | zero t =>
      cases s with
      | positive => cases t <;> exact isResult_pack (u := .zero .positive) trivial
      | negative => cases t <;> exact isResult_pack trivial
  | finite s m e hm hu =>
    cases hv using IsDecoded.elim with
    | zero t =>
      rw [unpackedValue_zero, add_zero]
      exact isResult_pack hu
    | finite t n f hn =>
      refine .inl ((ofModel_normalize _ _).trans (congrArg nearestTo ?_))
      show ((s.apply (decreaseExponent m e (min e f)).1 +
          t.apply (decreaseExponent n f (min e f)).1 : ℤ) : ℚ) * 2 ^ (min e f) = _
      rw [Int.cast_add, add_mul, decreaseExponent_scaled s m (min_le_left e f),
        decreaseExponent_scaled t n (min_le_right e f)]
      rfl

theorem withSign_mul (s t : Sign) (q r : ℚ) :
    withSign (isNegative s) q * withSign (isNegative t) r =
      withSign (isNegative (s * t)) (q * r) := by
  cases s with
  | positive =>
    cases t with
    | positive => rfl
    | negative => exact mul_neg q r
  | negative =>
    cases t with
    | positive => exact neg_mul q r
    | negative => exact neg_mul_neg q r

theorem withSign_div (s t : Sign) (q r : ℚ) :
    withSign (isNegative s) q / withSign (isNegative t) r =
      withSign (isNegative (s / t)) (q / r) := by
  cases s with
  | positive =>
    cases t with
    | positive => rfl
    | negative => exact div_neg q
  | negative =>
    cases t with
    | positive => exact neg_div r q
    | negative => exact neg_div_neg_eq q r

theorem isResult_mul_unpacked (hu : IsDecoded u) (hv : IsDecoded v) :
    IsResult (Float.ofModel (.pack (UnpackedFloat.mul Format.binary64 u v)))
      (unpackedValue u * unpackedValue v) := by
  cases hu using IsDecoded.elim with
  | zero s =>
    rw [unpackedValue_zero, zero_mul]
    cases hv using IsDecoded.elim with
    | finite t n f hn => exact isResult_pack (u := .zero (s * t)) trivial
    | zero t => exact isResult_pack (u := .zero (s * t)) trivial
  | finite s m e hm hu =>
    cases hv using IsDecoded.elim with
    | zero t =>
      rw [unpackedValue_zero, mul_zero]
      exact isResult_pack (u := .zero (s * t)) trivial
    | finite t n f hn hv =>
      have hproduct : (m : ℚ) * 2 ^ e * (n * 2 ^ f) = (m * n : ℕ) * 2 ^ (e + f) := by
        rw [zpow_add₀ two_ne_zero]
        push_cast
        ring
      have hscaled : (m : ℚ) * 2 ^ e * (n * 2 ^ f) / 2 ^ (e + f) = (m * n : ℕ) := by
        rw [hproduct, mul_div_cancel_right₀ _ (zpow_ne_zero _ two_ne_zero)]
      have hq : (0 : ℚ) < m * 2 ^ e * (n * 2 ^ f) := by
        rw [hproduct]
        exact mul_pos (by exact_mod_cast Nat.mul_pos hm hn) (zpow_pos two_pos _)
      -- A product of two significands has 53 bits, or both have the least exponent.
      have hlow : (2 : ℚ) ^ (e + f + 52) ≤ m * 2 ^ e * (n * 2 ^ f) ∨ e + f ≤ -1074 := by
        obtain ⟨-, -, hlead⟩ := hu
        obtain ⟨-, -, hlead'⟩ := hv
        have hbits : 2 ^ 52 ≤ m * n ∨ e + f ≤ -1074 := by
          rcases hlead with h | h
          · exact .inl (h.trans (Nat.le_mul_of_pos_right m hn))
          · rcases hlead' with h' | h'
            · exact .inl (h'.trans (Nat.le_mul_of_pos_left n hm))
            · exact .inr (by omega)
        refine hbits.imp_left fun h => ?_
        rw [hproduct, add_comm, zpow_add₀ two_ne_zero]
        exact mul_le_mul_of_nonneg_right (by exact_mod_cast h) (by positivity)
      rw [unpackedValue_finite, unpackedValue_finite, withSign_mul]
      exact .inl (ofModel_roundWithAccuracy hq (hscaled ▸ represents_exact _)
        (le_unitOf hq hlow) (s * t))

/-- Division of significands leaves a remainder, which tells the guard bits. -/
theorem represents_divCore {n : ℕ} (hn : 0 < n) (m : ℕ) (e f : ℤ) :
    Represents (ExtendedMantissa.ofMantissaAndAccuracy (divCore Format.binary64 m e n f).1
      (divCore Format.binary64 m e n f).2.2)
      ((m : ℚ) * 2 ^ e / (n * 2 ^ f) / 2 ^ (divCore Format.binary64 m e n f).2.1) := by
  have hn' : (n : ℚ) ≠ 0 := by exact_mod_cast Nat.ne_of_gt hn
  simp only [divCore, Nat.shiftLeft_eq]
  generalize ht : min (e - f) (Format.binary64.targetExponent _) = t
  obtain ⟨k, hk⟩ : ∃ k : ℕ, e - f - t = k := ⟨(e - f - t).toNat, by omega⟩
  rw [hk, Int.toNat_natCast]
  have hquotient : (m : ℚ) * 2 ^ e / (n * 2 ^ f) / 2 ^ t =
      (m * 2 ^ k / n : ℕ) + ((m * 2 ^ k % n : ℕ) : ℚ) / n := by
    have hwhole : (n : ℚ) * (m * 2 ^ k / n : ℕ) + (m * 2 ^ k % n : ℕ) = m * 2 ^ k := by
      exact_mod_cast Nat.div_add_mod (m * 2 ^ k) n
    have hpow : (2 : ℚ) ^ e = 2 ^ f * 2 ^ t * 2 ^ k := by
      rw [← zpow_natCast, ← zpow_add₀ two_ne_zero, ← zpow_add₀ two_ne_zero]
      congr 1
      omega
    rw [hpow]
    field_simp
    rw [hwhole]
  rw [hquotient]
  exact represents_fraction (Nat.mod_lt _ hn) _

/-- Division computes enough bits of the quotient. -/
theorem divCore_le_unitOf {m n : ℕ} (hm : 0 < m) (hn : 0 < n) (e f : ℤ) :
    (divCore Format.binary64 m e n f).2.1 ≤ unitOf ((m : ℚ) * 2 ^ e / (n * 2 ^ f)) := by
  have hn' : (0 : ℚ) < n := by exact_mod_cast hn
  have hquotient : (m : ℚ) * 2 ^ e / (n * 2 ^ f) = m / n * 2 ^ (e - f) := by
    rw [zpow_sub₀ two_ne_zero]
    field_simp
  have hq : (0 : ℚ) < m / n * 2 ^ (e - f) :=
    mul_pos (div_pos (by exact_mod_cast hm) hn') (zpow_pos two_pos _)
  have hlog : (2 : ℚ) ^ ((m.log2 : ℤ) - n.log2 - 1 + (e - f)) ≤ m / n * 2 ^ (e - f) := by
    rw [zpow_add₀ two_ne_zero]
    refine mul_le_mul_of_nonneg_right ?_ (le_of_lt (zpow_pos two_pos _))
    refine (Int.zpow_le_iff_le_log (b := 2) (by decide) (div_pos (by exact_mod_cast hm) hn')).mpr ?_
    exact (log_quotient hm hn).1
  rw [hquotient]
  show min (e - f) (max (m.log2 + 1 + e - (n.log2 + 1 + f) - 53) (-1074)) ≤ _
  have hle := (Int.zpow_le_iff_le_log (b := 2) (by decide) hq).mp hlog
  rw [unitOf]
  omega

theorem isResult_div_unpacked (hu : IsDecoded u) (hv : IsDecoded v) (hv' : unpackedValue v ≠ 0) :
    IsResult (Float.ofModel (.pack (UnpackedFloat.div Format.binary64 u v)))
      (unpackedValue u / unpackedValue v) := by
  cases hv using IsDecoded.elim with
  | zero t => exact absurd rfl hv'
  | finite t n f hn =>
    cases hu using IsDecoded.elim with
    | zero s =>
      rw [unpackedValue_zero, zero_div]
      exact isResult_pack (u := .zero (s / t)) trivial
    | finite s m e hm =>
      have hnum : (0 : ℚ) < m * 2 ^ e := mul_pos (by exact_mod_cast hm) (zpow_pos two_pos e)
      have hden : (0 : ℚ) < n * 2 ^ f := mul_pos (by exact_mod_cast hn) (zpow_pos two_pos f)
      have hq : (0 : ℚ) < m * 2 ^ e / (n * 2 ^ f) := div_pos hnum hden
      rw [unpackedValue_finite, unpackedValue_finite, withSign_div]
      show IsResult (Float.ofModel (.pack (roundWithAccuracy Format.binary64 (s / t)
        (divCore Format.binary64 m e n f).1 (divCore Format.binary64 m e n f).2.1
          (divCore Format.binary64 m e n f).2.2))) _
      exact .inl (ofModel_roundWithAccuracy hq (represents_divCore hn m e f)
        (divCore_le_unitOf hm hn e f) (s / t))

end
section
variable {x y : Float} {q : ℚ}

theorem isResult_add (hx : x.isFinite) (hy : y.isFinite) :
    IsResult (x + y) (Number.exact x + Number.exact y) := by
  rw [exact_eq_unpackedValue, exact_eq_unpackedValue]
  exact isResult_add_unpacked (isDecoded_of_isFinite hx) (isDecoded_of_isFinite hy)

theorem isResult_sub (hx : x.isFinite) (hy : y.isFinite) :
    IsResult (x - y) (Number.exact x - Number.exact y) := by
  rw [exact_eq_unpackedValue, exact_eq_unpackedValue, sub_eq_add_neg, ← unpackedValue_neg]
  show IsResult (Float.ofModel (.pack (UnpackedFloat.sub Format.binary64 _ _))) _
  rw [sub_unpacked]
  exact isResult_add_unpacked (isDecoded_of_isFinite hx) (isDecoded_of_isFinite hy).neg

theorem isResult_mul (hx : x.isFinite) (hy : y.isFinite) :
    IsResult (x * y) (Number.exact x * Number.exact y) := by
  rw [exact_eq_unpackedValue, exact_eq_unpackedValue]
  exact isResult_mul_unpacked (isDecoded_of_isFinite hx) (isDecoded_of_isFinite hy)

theorem isResult_div (hx : x.isFinite) (hy : y.isFinite) (hy' : Number.exact y ≠ 0) :
    IsResult (x / y) (Number.exact x / Number.exact y) := by
  rw [exact_eq_unpackedValue] at hy'
  rw [exact_eq_unpackedValue, exact_eq_unpackedValue]
  exact isResult_div_unpacked (isDecoded_of_isFinite hx) (isDecoded_of_isFinite hy) hy'

end
/-! ## Doubles that stand for a result -/

section
variable {x y : Float} {q : ℚ}

theorem IsNegativeZero.isFinite (h : IsNegativeZero x) : x.isFinite := by
  show x.toModel.unpack.isFinite = true
  rw [h]
  rfl

theorem IsResult.isFinite_iff (h : IsResult x q) : x.isFinite ↔ (nearestTo q).isFinite := by
  obtain rfl | ⟨rfl, hzero⟩ := h
  · rfl
  · rw [nearestTo_zero]
    exact iff_of_true hzero.isFinite isFinite_zero

theorem IsResult.exact_eq (h : IsResult x q) : Number.exact x = Number.exact (nearestTo q) := by
  obtain rfl | ⟨rfl, hzero⟩ := h
  · rfl
  · rw [nearestTo_zero, exact_of_isNegativeZero hzero, exact_zero]

theorem IsResult.zero (h : IsResult x 0) : x.isFinite ∧ Number.exact x = 0 := by
  have hfinite := h.isFinite_iff
  have hexact := h.exact_eq
  rw [nearestTo_zero] at hfinite hexact
  exact ⟨hfinite.mpr isFinite_zero, hexact.trans exact_zero⟩

theorem isResult_self (hx : x.isFinite) : IsResult x (Number.exact x) := by
  by_cases hzero : IsNegativeZero x
  · exact .inr ⟨exact_of_isNegativeZero hzero, hzero⟩
  · exact .inl (nearestTo_exact hx hzero).symm

theorem exact_ofNat {n : ℕ} (hn : n < 2 ^ 53) : Number.exact (Float.ofNat n) = n := by
  rw [exact_eq_unpackedValue, unpack_float_ofNat hn]
  rcases Nat.eq_zero_or_pos n with rfl | hpos
  · exact Nat.cast_zero.symm
  · rw [unpackedWhole_of_pos hpos, unpackedValue_finite, zpow_neg, zpow_natCast]
    push_cast
    exact mul_inv_cancel_right₀ (pow_ne_zero _ two_ne_zero) _

/-- A finite result is nearest to the exact one. -/
theorem IsResult.isNearest (h : IsResult x q) (hx : x.isFinite) : IsNearest x q := by
  obtain rfl | ⟨rfl, hzero⟩ := h
  · exact isNearest_nearestTo hx
  · refine ⟨hx, fun y _ => ?_, fun y _ heq => .inl ?_⟩
    · rw [exact_of_isNegativeZero hzero, sub_zero, abs_zero]
      exact abs_nonneg _
    · rw [exact_of_isNegativeZero hzero, sub_zero, sub_zero, abs_zero] at heq
      rw [exact_of_isNegativeZero hzero, abs_eq_zero.mp heq.symm]

/-- A result of 53 bits is exact, unless it is too large. -/
theorem IsResult.exact_scaled {k : ℕ} {e : ℤ} {negative : Bool}
    (h : IsResult x (withSign negative (k * 2 ^ e))) (hk : k < 2 ^ 53) (hlow : -1074 ≤ e)
    (hhigh : e ≤ 971) : x.isFinite ∧ Number.exact x = withSign negative (k * 2 ^ e) := by
  obtain ⟨hfinite, hexact⟩ := exact_nearestTo_scaled hk hlow hhigh negative
  exact ⟨h.isFinite_iff.mpr hfinite, h.exact_eq.trans hexact⟩

theorem IsDecoded.abs {u : UnpackedFloat} (h : IsDecoded u) : IsDecoded u.abs := by
  cases u <;> exact h

theorem unpackedValue_abs (u : UnpackedFloat) : unpackedValue u.abs = |unpackedValue u| := by
  cases u with
  | finite s m e h =>
    have hpos : (0 : ℚ) ≤ m * 2 ^ e := by positivity
    show unpackedValue (.finite .positive m e h) = _
    rw [unpackedValue_finite, unpackedValue_finite, abs_withSign, abs_of_nonneg hpos]
    rfl
  | _ => exact abs_zero.symm

/-- A result of the magnitude of a finite double is exact. -/
theorem IsResult.exact_of_abs_eq (h : IsResult y q) (hx : x.isFinite)
    (hq : |q| = |Number.exact x|) : y.isFinite ∧ Number.exact y = q := by
  obtain ⟨p, hp⟩ := exists_parts_of_isFinite hx
  obtain ⟨hsignificand, hlow, hhigh, -, -⟩ := Parts.ofBits?_eq_some hp
  obtain ⟨negative, rfl⟩ : ∃ negative, q = withSign negative (p.significand * 2 ^ p.exponent) := by
    rw [abs_exact_of_parts hp, p.num_div_den] at hq
    obtain hq | hq := eq_or_eq_neg_of_abs_eq hq
    · exact ⟨false, hq⟩
    · exact ⟨true, hq⟩
  exact h.exact_scaled hsignificand hlow hhigh

/-- The magnitude of a finite double is one too. -/
theorem exact_abs (hx : x.isFinite) : x.abs.isFinite ∧ Number.exact x.abs = |Number.exact x| := by
  have hresult : IsResult x.abs |Number.exact x| := by
    rw [exact_eq_unpackedValue, ← unpackedValue_abs]
    exact isResult_pack (isDecoded_of_isFinite hx).abs
  exact hresult.exact_of_abs_eq hx (abs_abs _)

theorem exact_neg (hx : x.isFinite) : Number.exact (-x) = -Number.exact x := by
  have hresult : IsResult (-x) (-Number.exact x) := by
    rw [exact_eq_unpackedValue, ← unpackedValue_neg]
    exact isResult_pack (isDecoded_of_isFinite hx).neg
  exact (hresult.exact_of_abs_eq hx (abs_neg _)).2

/-- Finite doubles are multiples of the least one. -/
theorem exists_multiple (hx : x.isFinite) : ∃ k : ℤ, Number.exact x = k * 2 ^ (-1074 : ℤ) := by
  obtain ⟨p, hp⟩ := exists_parts_of_isFinite hx
  obtain ⟨-, hlow, -, -, -⟩ := Parts.ofBits?_eq_some hp
  obtain ⟨j, hj⟩ : ∃ j : ℕ, p.exponent = -1074 + j := ⟨(p.exponent + 1074).toNat, by omega⟩
  have hshift : (p.significand : ℚ) * 2 ^ p.exponent =
      ((p.significand * 2 ^ j : ℕ) : ℤ) * 2 ^ (-1074 : ℤ) := by
    rw [hj, zpow_add₀ two_ne_zero, zpow_natCast]
    generalize (2 : ℚ) ^ (-1074 : ℤ) = least
    push_cast
    ring
  rw [exact_of_parts hp, hshift]
  cases p.negative with
  | false => exact ⟨_, rfl⟩
  | true => exact ⟨-((p.significand * 2 ^ j : ℕ) : ℤ), by rw [Int.cast_neg, neg_mul]; rfl⟩

theorem withSign_half (negative : Bool) (q : ℚ) :
    withSign negative q / 2 = withSign negative (q / 2) := by
  cases negative with
  | false => rfl
  | true => exact neg_div 2 q

/-- A finite result may be halved before it is rounded: only below the least normal double could a
bit be lost, and there a multiple of the least double is not rounded. -/
theorem nearestTo_half {k : ℤ} (hk : q = k * 2 ^ (-1074 : ℤ)) (h : (nearestTo q).isFinite) :
    nearestTo (Number.exact (nearestTo q) / 2) = nearestTo (q / 2) := by
  rcases eq_or_ne q 0 with rfl | hne
  · rw [nearestTo_zero, exact_zero]
  obtain ⟨negative, r, hr, rfl⟩ := exists_withSign hne
  obtain ⟨n, hn, hbits⟩ := exists_rounded hr h
  obtain ⟨-, hexact⟩ := exact_nearestTo_of_rounded hr hn hbits negative
  obtain ⟨hlt, hlead⟩ := unitOf_bounds hr
  rw [hexact]
  by_cases hunit : unitOf r = -1074
  · have hpow : (0 : ℚ) < 2 ^ (-1074 : ℤ) := zpow_pos two_pos _
    have hwhole : r = k.natAbs * 2 ^ (-1074 : ℤ) := by
      rw [← abs_of_pos hr, ← abs_withSign negative, hk, abs_mul, abs_of_pos hpow, Nat.cast_natAbs,
        Int.cast_abs]
    have hsame : n = k.natAbs := by
      refine hn.unique ?_
      rw [hunit, hwhole, mul_div_cancel_right₀ _ (ne_of_gt hpow)]
      exact isRounded_self _
    rw [hunit, hsame, ← hwhole]
  · have hlow := neg_le_unitOf r
    have hscaled : r / 2 / 2 ^ (unitOf r - 1) = r / 2 ^ unitOf r := by
      rw [div_div, zpow_sub_one₀ two_ne_zero]
      field_simp
    have hhalf : unitOf (r / 2) = unitOf r - 1 :=
      unitOf_eq (half_pos hr) (by omega) (hscaled ▸ hlt)
        (.inl (hscaled ▸ hlead.resolve_right hunit))
    have hunits : (unitOf r - 1 + 1074).toNat ≤ (unitOf r + 1074).toNat := by omega
    have hroom : (unitOf r - 1 + 1074).toNat * 2 ^ 52 + n < infinityBits :=
      Nat.lt_of_le_of_lt (Nat.add_le_add_right (Nat.mul_le_mul_right _ hunits) n) hbits
    obtain ⟨hfinite, hexact'⟩ := @exact_nearestTo_of_rounded (r / 2) n (half_pos hr)
      (by rwa [hhalf, hscaled]) (hhalf ▸ hroom) negative
    have hvalue : withSign negative (n * 2 ^ unitOf r) / 2 =
        Number.exact (nearestTo (withSign negative (r / 2))) := by
      rw [hexact', hhalf, withSign_half, zpow_sub_one₀ two_ne_zero]
      congr 1
      ring
    rw [hvalue, withSign_half]
    refine nearestTo_exact hfinite fun hzero => ?_
    have hpos : 2 ^ 52 ≤ n := (hn.bounds hr).2.resolve_right hunit
    have hvalue0 := congrArg (|·|) (exact_of_isNegativeZero hzero)
    rw [hexact', abs_withSign, abs_zero, abs_eq_zero, mul_eq_zero] at hvalue0
    have hn0 : n = 0 := by
      exact_mod_cast hvalue0.resolve_right (zpow_ne_zero _ two_ne_zero)
    omega

end

end Tabular.Number

namespace Tabular

/-- Two results that are rounded to one double are the same number, or neither is finite. -/
theorem sameNumber_finite? {x y : Float} {q r : ℚ} (hx : Number.IsResult x q)
    (hy : Number.IsResult y r) (h : Number.nearestTo q = Number.nearestTo r) :
    SameNumber (Aggregate.finite? x) (Aggregate.finite? y) := by
  have hiff : x.isFinite ↔ y.isFinite := hx.isFinite_iff.trans (h ▸ hy.isFinite_iff.symm)
  unfold Aggregate.finite?
  by_cases hfinite : x.isFinite
  · rw [if_pos hfinite, if_pos (hiff.mp hfinite)]
    refine (Number.beq_iff_exact_eq hfinite (hiff.mp hfinite)).mpr ?_
    rw [hx.exact_eq, hy.exact_eq, h]
  · rw [if_neg hfinite, if_neg (mt hiff.mpr hfinite)]
    trivial

end Tabular

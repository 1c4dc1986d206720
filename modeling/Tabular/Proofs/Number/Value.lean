import Tabular.Proofs.Number.Bits
import Tabular.Proofs.Number.Finite
import Tabular.Proofs.Number.Rounding

/-!
# Exact values of doubles

A finite double stands for a rational number. Finite doubles compare as their numbers do
(`lt_iff_exact_lt`), and two of one number differ at most in the sign of a zero
(`eq_of_exact_eq`). A sum or difference that is not rounded leaves no negative zero unless one was
there before (`not_isNegativeZero_add`, `not_isNegativeZero_sub`).
-/
namespace Tabular.Number
open Float.Model Float.Model.UnpackedFloat

/-- The number that a finite double stands for. -/
def exact (x : Float) : ℚ :=
  match parts? x with
  | some p => (if p.negative then -(p.num : ℚ) else p.num) / p.den
  | none => 0

example : Number.exact (-0.75) = -3 / 4 := by decide +kernel

/-- The number that a decoded double stands for. An infinity and NaN count as zero here too. -/
def unpackedValue : UnpackedFloat → ℚ
  | .finite s m e _ => (s.apply m : ℤ) * 2 ^ e
  | _ => 0

def IsNegativeZero (x : Float) : Prop := x.toModel.unpack = .zero .negative

/-! ## Decoding -/

def Parts.sign (p : Parts) : Sign := if p.negative then .negative else .positive

/-- Core decodes a bit pattern to its parts. -/
theorem unpack_of_parts {b : BitVec Format.binary64.numBits} {p : Parts}
    (h : Parts.ofBits? b.toNat = some p) : UnpackedFloat.unpack Format.binary64 b =
      if hs : 0 < p.significand then .finite p.sign p.significand p.exponent hs
      else .zero p.sign := by
  have hsign := ofBitVec_eq (toNat_unpackSign b)
  have hexponent := toNat_unpackExponent b
  have hmantissa := toNat_unpackMantissa b
  have hbias : ((Format.binary64.exponentBias : ℕ) : ℤ) +
    ((Format.binary64.mantissaBitsWithoutImplicit : ℕ) : ℤ) = 1075 := rfl
  have hfield (n : ℕ) :
      unpackExponent b = BitVec.ofNat 11 n ↔ (unpackExponent b).toNat = n % 2 ^ 11 :=
    BitVec.toNat_inj.symm
  generalize b.toNat = n at hsign hexponent hmantissa h
  simp only [Parts.ofBits?, twoTo, Nat.pow_eq, ← hexponent, ← hmantissa] at h
  simp only [UnpackedFloat.unpack]
  split at h
  · cases h
  rename_i hones
  have hones' : unpackExponent b ≠ -1#11 := mt (hfield 2047).mp hones
  rw [if_neg hones']
  split at h
  -- The least exponent field: the significand has no leading bit, and it may be zero.
  · rename_i hzero
    cases h
    rw [if_pos ((hfield 0).mpr hzero)]
    split
    · rename_i hm
      have hsignificand : (unpackMantissa b).toNat = 0 := congrArg BitVec.toNat hm
      rw [dif_neg (Nat.not_lt_of_le (Nat.le_of_eq hsignificand)), hsign]
      rfl
    · rename_i hm
      have hpos : 0 < (unpackMantissa b).toNat :=
        Nat.pos_of_ne_zero fun h0 => hm (BitVec.eq_of_toNat_eq h0)
      rw [dif_pos hpos]
      simp only [Parts.sign, hsign, hzero, hbias]
      rfl
  · rename_i hzero
    cases h
    rw [if_neg (mt (hfield 0).mp hzero), dif_pos (Nat.add_pos_right _ (Nat.two_pow_pos 52))]
    simp only [Parts.sign, hsign, hbias, toNat_one_append]
    rfl

/-- A significand of 53 bits, or a shorter one under the least exponent. -/
def Canonical (m : ℕ) (e : ℤ) : Prop := m < 2 ^ 53 ∧ -1074 ≤ e ∧ (2 ^ 52 ≤ m ∨ e = -1074)

/-- What a finite double is decoded to. -/
def IsDecoded : UnpackedFloat → Prop
  | .zero _ => True
  | .finite _ m e _ => Canonical m e
  | _ => False

@[elab_as_elim]
theorem IsDecoded.elim {motive : (u : UnpackedFloat) → IsDecoded u → Prop}
    (zero : ∀ s, motive (.zero s) trivial)
    (finite : ∀ s m e h (hc : Canonical m e), motive (.finite s m e h) hc)
    {u : UnpackedFloat} (hu : IsDecoded u) : motive u hu := by
  cases u with
  | infinity s => cases hu
  | notANumber => cases hu
  | zero s => exact zero s
  | finite s m e h => exact finite s m e h hu

theorem isDecoded_of_isFinite {x : Float} (h : x.isFinite) : IsDecoded x.toModel.unpack := by
  cases hp : parts? x with
  | none => obtain rfl | rfl | rfl := special_of_parts?_eq_none hp <;> cases h
  | some p =>
    obtain ⟨hsignificand, hexponent, -, hcanonical, -⟩ := Parts.ofBits?_eq_some hp
    have hunpack : x.toModel.unpack = _ := unpack_of_parts hp
    rw [hunpack]
    split
    · exact ⟨hsignificand, hexponent, hcanonical⟩
    · trivial

theorem exact_eq_unpackedValue (x : Float) : Number.exact x = unpackedValue x.toModel.unpack := by
  unfold Number.exact
  cases hp : parts? x with
  | none => obtain rfl | rfl | rfl := special_of_parts?_eq_none hp <;> rfl
  | some p =>
    have hunpack : x.toModel.unpack = _ := unpack_of_parts hp
    have hvalue : (if p.negative then -(p.num : ℚ) else p.num) / p.den =
        (p.sign.apply p.significand : ℤ) * 2 ^ p.exponent := by
      unfold Parts.sign
      split
      · simp only [Sign.apply, Int.cast_neg, Int.cast_natCast, neg_mul, neg_div, p.num_div_den]
      · exact p.num_div_den
    rw [hunpack]
    dsimp only
    rw [hvalue]
    split
    · rfl
    · rename_i hs
      rw [Nat.eq_zero_of_not_pos hs]
      cases p.sign <;> exact zero_mul _

/-! ## Order -/

section
variable {m n : ℕ} {e f : ℤ}

theorem scaled_lt_of_exponent_lt (hm : Canonical m e) (hn : Canonical n f) (h : e < f) :
    (m : ℚ) * 2 ^ e < n * 2 ^ f := by
  have hlow : 2 ^ 52 ≤ n := hn.2.2.resolve_right fun hf => by have := hm.2.1; omega
  calc (m : ℚ) * 2 ^ e < 2 ^ 53 * 2 ^ e :=
        mul_lt_mul_of_pos_right (by exact_mod_cast hm.1) (by positivity)
    _ = 2 ^ 52 * 2 ^ (e + 1) := by rw [zpow_add_one₀ (by norm_num)]; ring
    _ ≤ 2 ^ 52 * 2 ^ f := mul_le_mul_of_nonneg_left
        (zpow_le_zpow_right₀ (by norm_num) (by omega)) (by positivity)
    _ ≤ n * 2 ^ f := mul_le_mul_of_nonneg_right (by exact_mod_cast hlow) (by positivity)

/-- The exponents decide, and the significands where these are equal. -/
theorem compare_scaled (hm : Canonical m e) (hn : Canonical n f) :
    compare ((m : ℚ) * 2 ^ e) (n * 2 ^ f) = (compare e f).then (compare m n) := by
  rcases lt_trichotomy e f with h | rfl | h
  · rw [compare_lt_iff_lt.mpr h]
    exact compare_lt_iff_lt.mpr (scaled_lt_of_exponent_lt hm hn h)
  · rw [compare_eq_iff_eq.mpr rfl, ← cmp_eq_compare, ← cmp_eq_compare,
      cmp_mul_pos_right (zpow_pos (by norm_num) e)]
    exact Nat.strictMono_cast.cmp_map_eq m n
  · rw [compare_gt_iff_gt.mpr h]
    exact compare_gt_iff_gt.mpr (scaled_lt_of_exponent_lt hn hm h)

end

theorem unpackedValue_pos {m : ℕ} {e : ℤ} (h : 0 < m) :
    0 < unpackedValue (.finite .positive m e h) := by
  simp only [unpackedValue, Sign.apply]
  positivity

theorem unpackedValue_lt_zero {m : ℕ} {e : ℤ} (h : 0 < m) :
    unpackedValue (.finite .negative m e h) < 0 := by
  have hpos := unpackedValue_pos (e := e) h
  simp only [unpackedValue, Sign.apply, Int.cast_neg, neg_mul] at hpos ⊢
  linarith

theorem compare_unpacked {u v : UnpackedFloat} (hu : IsDecoded u) (hv : IsDecoded v) :
    u.compare v = some (compare (unpackedValue u) (unpackedValue v)) := by
  cases hu using IsDecoded.elim with
  | zero s =>
    cases hv using IsDecoded.elim with
    | zero t => rfl
    | finite t n f hn =>
      cases t with
      | positive => exact congrArg some (compare_lt_iff_lt.mpr (unpackedValue_pos hn)).symm
      | negative => exact congrArg some (compare_gt_iff_gt.mpr (unpackedValue_lt_zero hn)).symm
  | finite s m e hm hu =>
    cases hv using IsDecoded.elim with
    | zero t =>
      cases s with
      | positive => exact congrArg some (compare_gt_iff_gt.mpr (unpackedValue_pos hm)).symm
      | negative => exact congrArg some (compare_lt_iff_lt.mpr (unpackedValue_lt_zero hm)).symm
    | finite t n f hn hv =>
      cases s with
      | positive =>
        cases t with
        | positive => exact congrArg some (compare_scaled hu hv).symm
        | negative =>
          have hlt := (unpackedValue_lt_zero (e := f) hn).trans (unpackedValue_pos (e := e) hm)
          exact congrArg some (compare_gt_iff_gt.mpr hlt).symm
      | negative =>
        cases t with
        | positive =>
          have hlt := (unpackedValue_lt_zero (e := e) hm).trans (unpackedValue_pos (e := f) hn)
          exact congrArg some (compare_lt_iff_lt.mpr hlt).symm
        | negative =>
          refine congrArg some ?_
          simp only [unpackedValue, Sign.apply, Int.cast_neg, neg_mul, Int.cast_natCast]
          have hneg : cmp (-((m : ℚ) * 2 ^ e)) (-(n * 2 ^ f)) = cmp ((n : ℚ) * 2 ^ f) (m * 2 ^ e) :=
            strictMono_id.neg.cmp_map_eq ((m : ℚ) * 2 ^ e) (n * 2 ^ f)
          rw [← cmp_eq_compare (-((m : ℚ) * 2 ^ e)), hneg, ← cmp_swap, cmp_eq_compare,
            compare_scaled hu hv]

section
variable {x y : Float}

theorem compare_unpack (hx : x.isFinite) (hy : y.isFinite) :
    x.toModel.unpack.compare y.toModel.unpack =
      some (compare (Number.exact x) (Number.exact y)) := by
  rw [exact_eq_unpackedValue, exact_eq_unpackedValue]
  exact compare_unpacked (isDecoded_of_isFinite hx) (isDecoded_of_isFinite hy)

theorem lt_iff_compare : x < y ↔ x.toModel.unpack.compare y.toModel.unpack = some .lt := by
  show decide (x.toModel < y.toModel) = true ↔ _
  rw [decide_eq_true_iff]
  exact beq_iff_eq

/-- Finite doubles compare as the numbers they stand for. -/
theorem lt_iff_exact_lt (hx : x.isFinite) (hy : y.isFinite) :
    x < y ↔ Number.exact x < Number.exact y := by
  rw [lt_iff_compare, compare_unpack hx hy, Option.some.injEq]
  exact compare_lt_iff_lt

theorem le_iff_exact_le (hx : x.isFinite) (hy : y.isFinite) :
    x ≤ y ↔ Number.exact x ≤ Number.exact y := by
  have hle : x ≤ y ↔ x.toModel.unpack.le y.toModel.unpack := by
    show decide (x.toModel ≤ y.toModel) = true ↔ _
    rw [decide_eq_true_iff]
    rfl
  rw [hle, UnpackedFloat.le, compare_unpack hx hy]
  show (compare (Number.exact x) (Number.exact y)).isLE = true ↔ _
  rw [Ordering.isLE_iff_ne_gt, compare_gt_iff_gt, not_lt]

theorem beq_iff_exact_eq (hx : x.isFinite) (hy : y.isFinite) :
    x == y ↔ Number.exact x = Number.exact y := by
  have hbeq : x == y ↔ x.toModel.unpack.compare y.toModel.unpack = some .eq := by
    show (x.toModel.unpack.compare y.toModel.unpack == some .eq) = true ↔ _
    exact beq_iff_eq
  rw [hbeq, compare_unpack hx hy, Option.some.injEq]
  exact compare_eq_iff_eq

/-- Only the negative zero stands for the number of another double. -/
theorem eq_of_exact_eq (hx : x.isFinite) (hy : y.isFinite) (hx' : ¬ IsNegativeZero x)
    (hy' : ¬ IsNegativeZero y) (h : Number.exact x = Number.exact y) : x = y := by
  have hbeq : x.toModel.unpack.beq y.toModel.unpack = true := (beq_iff_exact_eq hx hy).mpr h
  obtain ⟨-, -, heq | ⟨-, hneg⟩ | ⟨hneg, -⟩⟩ := (beq_iff_ne_notANumber_and_eq _ _).mp hbeq
  · have hbits := (unpack_inj_of_valid x.toModel.valid y.toModel.valid).mp heq
    exact Float.toBits_inj.mp (UInt64.toBitVec_inj.mp hbits)
  · exact absurd hneg hy'
  · exact absurd hneg hx'

end

/-! ## Sums and differences that cancel out -/

/-- A significand is shifted to a lower exponent without a change of its value. -/
theorem decreaseExponent_scaled (s : Sign) (m : ℕ) {e t : ℤ} (ht : t ≤ e) :
    ((s.apply (decreaseExponent m e t).1 : ℤ) : ℚ) * 2 ^ t = (s.apply m : ℤ) * 2 ^ e := by
  obtain ⟨k, rfl⟩ : ∃ k : ℕ, e = t + k := ⟨(e - t).toNat, by omega⟩
  have hshift : (t + (k : ℤ) - t).toNat = k := by omega
  simp only [decreaseExponent, hshift, Nat.shiftLeft_eq]
  rw [zpow_add₀ (by norm_num), zpow_natCast]
  cases s <;> simp only [Sign.apply] <;> push_cast <;> ring

theorem unpackedValue_ne_zero (s : Sign) {m : ℕ} {e : ℤ} (h : 0 < m) :
    unpackedValue (.finite s m e h) ≠ 0 := by
  cases s with
  | positive => exact ne_of_gt (unpackedValue_pos h)
  | negative => exact ne_of_lt (unpackedValue_lt_zero h)

theorem add_unpacked_cancel {u v : UnpackedFloat} (hu : IsDecoded u) (hv : IsDecoded v)
    (hu' : u ≠ .zero .negative) (h : unpackedValue u + unpackedValue v = 0) :
    UnpackedFloat.add Format.binary64 u v = .zero .positive := by
  cases hu using IsDecoded.elim with
  | zero s =>
    cases hv using IsDecoded.elim with
    | finite t n f hn => exact absurd ((zero_add _).symm.trans h) (unpackedValue_ne_zero t hn)
    | zero t =>
      cases s with
      | negative => exact absurd rfl hu'
      | positive => cases t <;> rfl
  | finite s m e hm =>
    cases hv using IsDecoded.elim with
    | zero t => exact absurd ((add_zero _).symm.trans h) (unpackedValue_ne_zero s hm)
    | finite t n f hn =>
      -- Over the lesser exponent the significands add up to zero too.
      have hsum : s.apply (decreaseExponent m e (min e f)).1 +
          t.apply (decreaseExponent n f (min e f)).1 = 0 := by
        have hscaled := h
        simp only [unpackedValue] at hscaled
        rw [← decreaseExponent_scaled s m (min_le_left e f),
          ← decreaseExponent_scaled t n (min_le_right e f), ← add_mul, mul_eq_zero] at hscaled
        exact_mod_cast hscaled.resolve_right (zpow_ne_zero _ (by norm_num))
      show UnpackedFloat.normalize Format.binary64 (s.apply (decreaseExponent m e (min e f)).1 +
        t.apply (decreaseExponent n f (min e f)).1) (min e f) .positive = _
      rw [hsum]
      rfl

theorem sub_unpacked (u v : UnpackedFloat) : UnpackedFloat.sub Format.binary64 u v =
    UnpackedFloat.add Format.binary64 u v.neg := by
  cases u with
  | finite s m e hm =>
    cases v with
    | finite t n f hn =>
      have hneg : (-t).apply ((decreaseExponent n f (min e f)).1 : ℤ) =
          -t.apply (decreaseExponent n f (min e f)).1 := by
        cases t with
        | positive => rfl
        | negative => exact (neg_neg _).symm
      show UnpackedFloat.normalize Format.binary64 (s.apply (decreaseExponent m e (min e f)).1 -
        t.apply (decreaseExponent n f (min e f)).1) (min e f) .positive =
        UnpackedFloat.normalize Format.binary64 (s.apply (decreaseExponent m e (min e f)).1 +
          (-t).apply (decreaseExponent n f (min e f)).1) (min e f) .positive
      rw [hneg, sub_eq_add_neg]
    | _ => rfl
  | _ => cases v <;> rfl

theorem unpackedValue_neg (u : UnpackedFloat) : unpackedValue u.neg = -unpackedValue u := by
  cases u with
  | finite s m e hm => cases s <;> simp [unpackedValue, UnpackedFloat.neg, Sign.apply]
  | _ => exact neg_zero.symm

theorem IsDecoded.neg {u : UnpackedFloat} (h : IsDecoded u) : IsDecoded u.neg := by
  cases u <;> exact h

section
variable {x y : Float}

theorem not_isNegativeZero_zero : ¬ IsNegativeZero 0.0 := by
  intro h
  cases h

theorem exact_zero : Number.exact 0.0 = 0 := by decide +kernel

theorem isFinite_zero : (0.0 : Float).isFinite := rfl

theorem exact_of_isNegativeZero (h : IsNegativeZero x) : Number.exact x = 0 := by
  rw [exact_eq_unpackedValue, h]
  rfl

/-- A sum that is not rounded is the negative zero only where both of its terms are. -/
theorem not_isNegativeZero_add (hx : x.isFinite) (hy : y.isFinite) (hx' : ¬ IsNegativeZero x)
    (h : Number.exact (x + y) = Number.exact x + Number.exact y) : ¬ IsNegativeZero (x + y) := by
  intro hzero
  rw [exact_of_isNegativeZero hzero, exact_eq_unpackedValue, exact_eq_unpackedValue] at h
  have hcancel := add_unpacked_cancel (isDecoded_of_isFinite hx) (isDecoded_of_isFinite hy) hx'
    h.symm
  change (Float.Model.pack (UnpackedFloat.add Format.binary64 _ _)).unpack = _ at hzero
  rw [hcancel] at hzero
  cases unpack_packedZero.symm.trans hzero

/-- A difference that is not rounded is no negative zero unless that is what it is taken from. -/
theorem not_isNegativeZero_sub (hx : x.isFinite) (hy : y.isFinite) (hx' : ¬ IsNegativeZero x)
    (h : Number.exact (x - y) = Number.exact x - Number.exact y) : ¬ IsNegativeZero (x - y) := by
  intro hzero
  rw [exact_of_isNegativeZero hzero, exact_eq_unpackedValue, exact_eq_unpackedValue,
    sub_eq_add_neg, ← unpackedValue_neg] at h
  have hcancel := add_unpacked_cancel (isDecoded_of_isFinite hx) (isDecoded_of_isFinite hy).neg hx'
    h.symm
  change (Float.Model.pack (UnpackedFloat.sub Format.binary64 _ _)).unpack = _ at hzero
  rw [sub_unpacked, hcancel] at hzero
  cases unpack_packedZero.symm.trans hzero

end

end Tabular.Number

namespace Tabular

/-- Two values are the same number, or both are null. The two zeros are one number. -/
def SameNumber : Option Float → Option Float → Prop
  | some x, some y => x == y
  | none, none => True
  | _, _ => False

instance : (a b : Option Float) → Decidable (SameNumber a b)
  | some x, some y => inferInstanceAs (Decidable ((x == y) = true))
  | none, none => isTrue trivial
  | some _, none => isFalse id
  | none, some _ => isFalse id

end Tabular

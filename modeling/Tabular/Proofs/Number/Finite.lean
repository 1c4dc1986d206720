import Mathlib
import Tabular.Aggregate

/-!
# Finite numbers

Core decodes a double into sign, significand and exponent, computes there and encodes the
result, which is finite unless its exponent is too large. So negation keeps a number finite,
and a small whole number is finite as a double (`isFinite_ofNat`). A number that is read from
a cell is finite, and so is every aggregate.
-/
namespace Tabular.Number
open Float.Model Float.Model.UnpackedFloat

/-- Zero, or a number whose significand has at most `size` bits and whose exponent is at most
`bound`. -/
inductive Within (size : Nat) (bound : Int) : UnpackedFloat → Prop
  | zero (s : Sign) : Within size bound (.zero s)
  | finite {s : Sign} {m : Nat} {e : Int} {h : 0 < m} : m < 2 ^ size → e ≤ bound →
      Within size bound (.finite s m e h)

section
variable {size size' : Nat} {bound bound' : Int} {u v : UnpackedFloat}

theorem Within.isFinite (h : Within size bound u) : u.isFinite := by
  cases h <;> rfl

theorem Within.neg (h : Within size bound u) : Within size bound u.neg := by
  cases h with
  | zero s => exact .zero _
  | finite hm he => exact .finite hm he

/-! ## Encoding -/

theorem unpack_within {b : BitVec Format.binary64.numBits}
    (h : unpackExponent b ≠ -1#11) (hbound : -1074 ≤ bound)
    (he : ((unpackExponent b).toNat : Int) - 1075 ≤ bound) :
    Within 53 bound (UnpackedFloat.unpack Format.binary64 b) := by
  have hbias : ((Format.binary64.exponentBias : Nat) : Int) +
    ((Format.binary64.mantissaBitsWithoutImplicit : Nat) : Int) = 1075 := rfl
  have hlt : (unpackMantissa b).toNat < 2 ^ 52 := (unpackMantissa b).isLt
  have hone : (1#1 ++ unpackMantissa b).toNat < 2 ^ 53 := (1#1 ++ unpackMantissa b).isLt
  unfold UnpackedFloat.unpack
  rw [if_neg h]
  split
  · rename_i hzero
    split
    · exact .zero _
    · refine .finite (by omega) ?_
      rw [hzero, hbias]
      exact hbound
  · refine .finite hone ?_
    rw [hbias]
    omega

theorem unpack_packComponents_within {n : Nat} (hn : n < 2047) (hlow : -1074 ≤ bound)
    (he : (n : Int) - 1075 ≤ bound) (s : Sign) (mantissa : BitVec 52) :
    Within 53 bound (UnpackedFloat.unpack Format.binary64
      (packComponents Format.binary64 s (BitVec.ofNat 11 n) mantissa)) := by
  have hfield : (BitVec.ofNat 11 n).toNat = n :=
    BitVec.toNat_ofNat .. ▸ Nat.mod_eq_of_lt (Nat.lt_succ_of_lt hn)
  refine unpack_within ?_ hlow ?_
  · rw [unpackExponent_packComponents]
    intro hones
    rw [← hfield, hones] at hn
    exact absurd hn (by decide)
  · rw [unpackExponent_packComponents, hfield]
    exact he

/-- A number whose exponent is small enough is encoded without overflow, and its exponent does
not grow. -/
theorem Within.unpack_pack (h : Within size bound u) (hlow : -1074 ≤ bound) (hhigh : bound ≤ 971) :
    Within 53 bound (Float.Model.pack u).unpack := by
  have hbias : ((Format.binary64.exponentBias : Nat) : Int) = 1023 := rfl
  show Within 53 bound (UnpackedFloat.unpack _ (UnpackedFloat.pack Format.binary64 u))
  cases h with
  | zero s => exact unpack_packComponents_within (n := 0) (by decide) hlow (by omega) s 0
  | @finite s m e hpos hm he =>
    have hfield : (e + Format.binary64.exponentBias + (52 : Nat)).toNat < 2047 := by omega
    unfold UnpackedFloat.pack
    dsimp only
    rw [if_neg (Nat.not_le.mpr (Nat.succ_lt_succ hfield))]
    split
    · exact unpack_packComponents_within hfield hlow (by omega) s _
    · exact unpack_packComponents_within (n := 0) (by decide) hlow (by omega) s _

/-! ## Rounding -/

theorem shift_le (em : ExtendedMantissa) (n : Nat) : (em >>> n).mantissa ≤ em.mantissa := by
  show (n.repeat ExtendedMantissa.shiftRightOne em).mantissa ≤ em.mantissa
  induction n with
  | zero => exact Nat.le_refl _
  | succ n ih => exact Nat.le_trans (Nat.div_le_self _ 2) ih

theorem roundedMantissa_le (em : ExtendedMantissa) : em.roundedMantissa ≤ em.mantissa + 1 := by
  unfold ExtendedMantissa.roundedMantissa Accuracy.roundToNearestEven
  split <;> omega

theorem mantissa_ofMantissaAndAccuracy (m : Nat) (accuracy : Accuracy) :
    (ExtendedMantissa.ofMantissaAndAccuracy m accuracy).mantissa = m := by
  unfold ExtendedMantissa.ofMantissaAndAccuracy
  split <;> rfl

/-- Shifting drops bits, and moves the exponent at most by as many places as there are bits. -/
theorem shift_within {m : Nat} {e : Int} (hm : m < 2 ^ size) (he : e ≤ bound)
    (hlow : -1074 ≤ bound) (accuracy : Accuracy) :
    (shiftToTargetExponent Format.binary64 m e accuracy).1.mantissa ≤ m ∧
      (shiftToTargetExponent Format.binary64 m e accuracy).2 ≤ bound + size := by
  have hmin : Format.binary64.minExponent = -1074 := by decide
  have hbits : Format.binary64.mantissaBits = 53 := rfl
  have hlog : m.log2 ≤ size := by
    rcases Nat.eq_zero_or_pos m with rfl | hpos
    · simp
    · exact Nat.le_of_lt ((Nat.log2_lt (Nat.ne_of_gt hpos)).mpr hm)
  refine ⟨?_, ?_⟩
  · refine Nat.le_trans (shift_le _ _) (Nat.le_of_eq ?_)
    exact mantissa_ofMantissaAndAccuracy m accuracy
  · simp only [shiftToTargetExponent, shiftToExponent, Format.targetExponent, totalExponent,
      hmin, hbits]
    omega

/-- Rounding adds at most one bit, and moves the exponent by no more places than there are bits
before it and behind it. -/
theorem roundWithAccuracy_within {m : Nat} {e : Int} (hm : m < 2 ^ size) (he : e ≤ bound)
    (hlow : -1074 ≤ bound) (s : Sign) (accuracy : Accuracy) :
    Within (size + 1) (bound + size + (size + 1))
      (roundWithAccuracy Format.binary64 s m e accuracy) := by
  -- A carry may need one bit more, so the result is shifted once again.
  obtain ⟨hm₁, he₁⟩ := shift_within hm he hlow accuracy
  unfold roundWithAccuracy
  generalize shiftToTargetExponent Format.binary64 m e accuracy = first at *
  have hrounded : first.1.roundedMantissa < 2 ^ (size + 1) := by
    have := roundedMantissa_le first.1
    omega
  obtain ⟨hm₂, he₂⟩ := shift_within hrounded he₁ (by omega) .exact
  dsimp only
  split
  · exact .zero s
  · exact .finite (Nat.lt_of_le_of_lt hm₂ hrounded) (by omega)

theorem mul_within (hu : Within size bound u) (hv : Within size' bound' v)
    (hlow : -1074 ≤ bound + bound') :
    Within (size + size' + 1) (bound + bound' + (size + size' : Nat) + ((size + size' : Nat) + 1))
      (UnpackedFloat.mul Format.binary64 u v) := by
  cases hu with
  | zero s =>
    cases hv with
    | zero s' => exact .zero _
    | finite hm' he' => exact .zero _
  | finite hm he =>
    cases hv with
    | zero s' => exact .zero _
    | finite hm' he' =>
      refine roundWithAccuracy_within ?_ (by omega) hlow _ _
      rw [Nat.pow_add]
      exact Nat.mul_lt_mul'' hm hm'

/-- A whole number of at most 53 bits is normalized without overflow. -/
theorem ofNat_within {n : Nat} (hn : n < 2 ^ 53) :
    Within 106 211 (UnpackedFloat.ofNat Format.binary64 n) := by
  unfold UnpackedFloat.ofNat UnpackedFloat.ofInt UnpackedFloat.normalize
  rcases Nat.eq_zero_or_pos n with rfl | hpos
  · exact .zero _
  have hcompare : compare (n : Int) 0 = .gt := by
    rw [Int.compare_eq_gt]
    omega
  have hlog : n.log2 < 53 := (Nat.log2_lt (Nat.ne_of_gt hpos)).mpr hn
  have hmin : Format.binary64.minExponent = -1074 := by decide
  have hbits : Format.binary64.mantissaBits = 53 := rfl
  rw [hcompare]
  simp only [UnpackedFloat.round, decreaseExponent, Int.toNat_natCast, Format.targetExponent,
    totalExponent, hmin, hbits]
  refine @roundWithAccuracy_within 105 0 _ _ ?_ (by omega) (by decide) _ _
  rw [Nat.shiftLeft_eq]
  calc n * 2 ^ _ < 2 ^ 53 * 2 ^ 52 := ?_
    _ = 2 ^ 105 := rfl
  refine Nat.mul_lt_mul_of_lt_of_le hn (Nat.pow_le_pow_right (by decide) ?_) (by decide)
  omega

end

/-! ## Doubles -/

/-- The exponent of a finite double has room. -/
theorem within_of_isFinite {x : Float} (h : x.isFinite) : Within 53 971 x.toModel.unpack := by
  have hones : @unpackExponent Format.binary64 x.toModel.toBits.toBitVec ≠ -1#11 := by
    intro hones
    change (UnpackedFloat.unpack Format.binary64 x.toModel.toBits.toBitVec).isFinite = true at h
    unfold UnpackedFloat.unpack at h
    rw [if_pos hones] at h
    split at h <;> cases h
  refine unpack_within hones (by decide) ?_
  have hlt := (@unpackExponent Format.binary64 x.toModel.toBits.toBitVec).isLt
  have hne : (@unpackExponent Format.binary64 x.toModel.toBits.toBitVec).toNat ≠ 2047 :=
    fun he => hones (BitVec.eq_of_toNat_eq he)
  change _ < 2048 at hlt
  omega

theorem isFinite_neg {x : Float} (h : x.isFinite) : (-x).isFinite :=
  ((within_of_isFinite h).neg.unpack_pack (by decide) (by decide)).isFinite

/-- Neither an infinity nor NaN has a magnitude within the bound on amounts. -/
theorem isFinite_of_abs_le {x : Float} (h : x.abs ≤ Limits.amount) : x.isFinite := by
  show x.toModel.unpack.isFinite = true
  have habs : x.abs = .ofModel (.pack x.toModel.unpack.abs) := rfl
  cases hu : x.toModel.unpack with
  | zero s => rfl
  | finite s m e hm => rfl
  | infinity s =>
    rw [habs, hu] at h
    change Float.ofModel (.pack (.infinity .positive)) ≤ Limits.amount at h
    exact absurd h (by decide +kernel)
  | notANumber =>
    rw [habs, hu] at h
    exact absurd h (by decide +kernel)

/-- A whole number of at most 53 bits is finite as a double. -/
theorem isFinite_ofNat {n : Nat} (hn : n < 2 ^ 53) : (Float.ofNat n).isFinite := by
  have hword : n.toUInt64.toNat = n := by
    rw [Nat.toUInt64, UInt64.toNat_ofNat']
    omega
  have hwhole : Within 53 211 n.toUInt64.toFloat.toModel.unpack := by
    show Within 53 211 (Float.Model.pack (UnpackedFloat.ofNat Format.binary64 n.toUInt64.toNat)).unpack
    rw [hword]
    exact (ofNat_within hn).unpack_pack (by decide) (by decide)
  have hone : Within 53 0 (Float.ofBits 0x3FF0000000000000).toModel.unpack :=
    unpack_within (by decide) (by decide) (by decide)
  -- The literal `n` is read as `n` times ten to the zero, which is one more product.
  have hproduct : Float.ofNat n = n.toUInt64.toFloat * Float.ofBits 0x3FF0000000000000 :=
    dif_pos ⟨hn, by decide⟩
  rw [hproduct]
  exact ((mul_within hwhole hone (by decide)).unpack_pack (by decide) (by decide)).isFinite

end Tabular.Number

namespace Tabular

/-- A value is null or a finite number. -/
def FiniteOrNull (value : Option Float) : Prop := ∀ x ∈ value, x.isFinite

theorem Aggregate.finite?_finite (x : Float) : FiniteOrNull (Aggregate.finite? x) := by
  intro y hy
  unfold Aggregate.finite? at hy
  split at hy
  · rename_i hfinite
    cases hy
    exact hfinite
  · cases hy

/-! ## Numbers of cells -/

theorem Amount.read?_finite (raw : String) : FiniteOrNull (Amount.read? raw) := by
  intro x hx
  unfold Amount.read? at hx
  dsimp only at hx
  obtain ⟨literal, -, hx⟩ := Option.bind_eq_some_iff.mp hx
  split at hx
  · rename_i hle
    have hfinite := Number.isFinite_of_abs_le hle
    cases hx
    split
    · exact Number.isFinite_neg hfinite
    · exact hfinite
  · cases hx

theorem Cell.number?_finite (cell : Cell) : FiniteOrNull cell.number? := by
  cases cell with
  | null => exact fun x hx => by cases hx
  | bool b => exact fun x hx => by cases hx
  | text s => exact Amount.read?_finite s
  | number value => exact Aggregate.finite?_finite value

/-! ## Aggregates -/

namespace Aggregate

theorem length_bump_le (value : Float) (table : List (Float × Nat)) :
    (bump value table).length ≤ table.length + 1 := by
  induction table with
  | nil => exact Nat.le_refl _
  | cons entry rest ih =>
    obtain ⟨v, n⟩ := entry
    unfold bump
    split
    · exact Nat.le_succ _
    · exact Nat.succ_le_succ ih

theorem distinct_le (values : List Float) : distinct values ≤ values.length := by
  suffices h : ∀ (values : List Float) (table : List (Float × Nat)),
      (values.foldl (fun table v => bump v table) table).length ≤ table.length + values.length by
    simpa [distinct, tally] using h values []
  intro values
  induction values with
  | nil => exact fun table => Nat.le_refl _
  | cons v rest ih =>
    intro table
    have hstep := length_bump_le v table
    have hrest := ih (bump v table)
    rw [List.foldl_cons, List.length_cons]
    omega

/-- An aggregate of few enough values is null or finite. Counts are never checked, so their
number matters. -/
theorem ofValues_finite {values : List Float} (hlen : values.length < 2 ^ 53)
    (kind : AggregateKind) (p? : Option Float) : FiniteOrNull (ofValues values kind p?) := by
  unfold ofValues
  split
  · intro x hx
    cases hx
    exact Number.isFinite_ofNat hlen
  · intro x hx
    cases hx
    exact Number.isFinite_ofNat (Nat.lt_of_le_of_lt (distinct_le _) hlen)
  · exact fun x hx => by cases hx
  · intro x hx
    obtain ⟨y, -, hy⟩ := Option.bind_eq_some_iff.mp hx
    exact finite?_finite y x hy

/-- The ceilings keep the number of values far below what a double can count. -/
theorem length_numbers_lt (rows : Dataset) (column : String) (kind : AggregateKind) :
    (numbers (rows.take kind.rowCeiling) column).length < 2 ^ 53 := by
  have hceiling : kind.rowCeiling < 2 ^ 53 := by cases kind <;> decide
  calc (numbers (rows.take kind.rowCeiling) column).length
      ≤ (rows.take kind.rowCeiling).length := List.length_filterMap_le _ _
    _ ≤ kind.rowCeiling := List.length_take_le _ _
    _ < 2 ^ 53 := hceiling

/-- Every aggregate of a column is null or finite. -/
theorem ofRows_finite (rows : Dataset) (column : String) (kind : AggregateKind)
    (p? : Option Float) : FiniteOrNull (ofRows rows column kind p?) :=
  ofValues_finite (length_numbers_lt rows column kind) kind p?

end Aggregate
end Tabular

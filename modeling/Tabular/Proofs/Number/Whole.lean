import Tabular.Proofs.Number.Bits
import Tabular.Proofs.Number.Finite

/-!
# Whole numbers as doubles

A whole number of at most 53 bits is a double exactly: core shifts its significand up to 53 bits
and keeps all of them (`ofNat_eq`). So such numbers are added without rounding (`ofNat_add`).
-/
namespace Tabular.Number
open Float.Model Float.Model.UnpackedFloat

/-- A whole number as core decodes it, with its significand shifted up to 53 bits. -/
def unpackedWhole (n : Nat) : UnpackedFloat :=
  if h : n = 0 then .zero .positive
  else .finite .positive (n * 2 ^ (52 - n.log2)) (-((52 - n.log2 : Nat) : Int))
    (Nat.mul_pos (Nat.pos_of_ne_zero h) (Nat.two_pow_pos _))

/-! ## Rounding -/

theorem log2_shifted {n : Nat} (hn : 0 < n) (j : Nat) : (n * 2 ^ j).log2 = n.log2 + j := by
  induction j with
  | zero => simp
  | succ j ih =>
    have hpos : n * 2 ^ j ≠ 0 := Nat.ne_of_gt (Nat.mul_pos hn (Nat.two_pow_pos j))
    rw [Nat.pow_succ, ← Nat.mul_assoc, Nat.mul_comm _ 2, Nat.log2_two_mul hpos, ih, Nat.add_assoc]

/-- Zeros are shifted out without a trace. -/
theorem shift_zeros (m j : Nat) :
    ExtendedMantissa.ofMantissaAndAccuracy (m * 2 ^ j) .exact >>> j =
      ExtendedMantissa.ofMantissaAndAccuracy m .exact := by
  show j.repeat ExtendedMantissa.shiftRightOne ⟨m * 2 ^ j, false, false⟩ = ⟨m, false, false⟩
  induction j generalizing m with
  | zero => simp [Nat.repeat]
  | succ j ih =>
    have hm : m * 2 ^ (j + 1) = m * 2 * 2 ^ j := by rw [Nat.pow_succ']; ring
    rw [Nat.repeat, hm, ih]
    simp [ExtendedMantissa.shiftRightOne]

section
variable {n j : Nat}

theorem targetExponent_whole (hn : 0 < n) :
    Format.binary64.targetExponent (totalExponent (n * 2 ^ j) (-(j : Int))) = (n.log2 : Int) - 52 := by
  have hmin : Format.binary64.minExponent = -1074 := by decide
  have hbits : Format.binary64.mantissaBits = 53 := rfl
  simp only [Format.targetExponent, totalExponent, log2_shifted hn, hmin, hbits]
  omega

/-- A whole number with enough zeros behind it is shifted down to 53 bits. -/
theorem shiftToTargetExponent_whole (hn : 0 < n) (hlog : n.log2 ≤ 52) (hj : 52 - n.log2 ≤ j) :
    shiftToTargetExponent Format.binary64 (n * 2 ^ j) (-(j : Int)) .exact =
      (ExtendedMantissa.ofMantissaAndAccuracy (n * 2 ^ (52 - n.log2)) .exact,
        -((52 - n.log2 : Nat) : Int)) := by
  obtain ⟨i, rfl⟩ := Nat.exists_eq_add_of_le hj
  have hshift : ((n.log2 : Int) - 52 - -((52 - n.log2 + i : Nat) : Int)).toNat = i := by omega
  rw [shiftToTargetExponent, targetExponent_whole hn, shiftToExponent, hshift, Nat.pow_add,
    ← Nat.mul_assoc, shift_zeros]
  refine Prod.ext rfl ?_
  show -((52 - n.log2 + i : Nat) : Int) + (i : Int) = _
  omega

theorem roundWithAccuracy_whole (hn : 0 < n) (hlog : n.log2 ≤ 52) (hj : 52 - n.log2 ≤ j) :
    roundWithAccuracy Format.binary64 .positive (n * 2 ^ j) (-(j : Int)) .exact =
      unpackedWhole n := by
  -- Nothing is lost by rounding, so the second shift has nothing left to do.
  have hfirst := shiftToTargetExponent_whole hn hlog hj
  have hsecond := shiftToTargetExponent_whole hn hlog (Nat.le_refl _)
  have hpos : n * 2 ^ (52 - n.log2) ≠ 0 := Nat.ne_of_gt (Nat.mul_pos hn (Nat.two_pow_pos _))
  unfold roundWithAccuracy
  rw [hfirst]
  dsimp only
  have hrounded : (ExtendedMantissa.ofMantissaAndAccuracy (n * 2 ^ (52 - n.log2))
    .exact).roundedMantissa = n * 2 ^ (52 - n.log2) := rfl
  simp only [hrounded, hsecond]
  rw [unpackedWhole, dif_neg (Nat.ne_of_gt hn)]
  exact dif_neg hpos

theorem round_whole (hn : 0 < n) (hlog : n.log2 ≤ 52) :
    UnpackedFloat.round Format.binary64 .positive (n * 2 ^ j) (-(j : Int)) = unpackedWhole n := by
  have hshift : (-(j : Int) - ((n.log2 : Int) - 52)).toNat = 52 - n.log2 - j := by omega
  have hexponent : -(j : Int) - ((52 - n.log2 - j : Nat) : Int) =
      -((j + (52 - n.log2 - j) : Nat) : Int) := by omega
  unfold UnpackedFloat.round
  simp only [targetExponent_whole hn, decreaseExponent, hshift, Nat.shiftLeft_eq]
  rw [Nat.mul_assoc, ← Nat.pow_add, hexponent]
  exact roundWithAccuracy_whole hn hlog (by omega)

end

/-! ## Encoding -/

theorem one_append_toNat {m : Nat} (hlow : 2 ^ 52 ≤ m) (hhigh : m < 2 ^ 53) :
    (1#1 ++ BitVec.ofNat 52 m).toNat = m := by
  rw [toNat_one_append, BitVec.toNat_ofNat]
  omega

/-- A significand of 53 bits is encoded and decoded as it is. -/
theorem unpack_pack_normal {s : Sign} {m : Nat} {e : Int} {h : 0 < m} (hlow : 2 ^ 52 ≤ m)
    (hhigh : m < 2 ^ 53) (he : -1074 ≤ e) (he' : e ≤ 971) :
    (Float.Model.pack (.finite s m e h)).unpack = .finite s m e h := by
  have hlog : m.log2 = 52 := (Nat.log2_eq_iff (Nat.ne_of_gt h)).mpr ⟨hlow, hhigh⟩
  obtain ⟨field, hfield⟩ : ∃ field : Nat, e = (field : Int) - 1075 := ⟨(e + 1075).toNat, by omega⟩
  subst hfield
  have hbits : (BitVec.ofNat 11 field).toNat = field := by
    rw [BitVec.toNat_ofNat]
    omega
  have hpack : UnpackedFloat.pack Format.binary64 (.finite s m ((field : Int) - 1075) h) =
      packComponents Format.binary64 s (BitVec.ofNat 11 field) (BitVec.ofNat 52 m) := by
    have hbiased : ((field : Int) - 1075 + (Format.binary64.exponentBias : Nat) +
        (Format.binary64.mantissaBitsWithoutImplicit : Nat)).toNat = field := by
      show ((field : Int) - 1075 + (1023 : Nat) + (52 : Nat)).toNat = field
      omega
    have hroom : ¬ 2 ^ Format.binary64.exponentBits ≤ field + 1 := by
      show ¬ 2048 ≤ field + 1
      omega
    simp only [UnpackedFloat.pack, hbiased, if_neg hroom, hlog]
    exact if_pos rfl
  have hones : BitVec.ofNat 11 field ≠ -1#11 := by
    intro he
    have := congrArg BitVec.toNat he
    rw [hbits] at this
    change field = 2047 at this
    omega
  have hzeros : BitVec.ofNat 11 field ≠ 0#11 := by
    intro he
    have := congrArg BitVec.toNat he
    rw [hbits] at this
    change field = 0 at this
    omega
  show UnpackedFloat.unpack Format.binary64 (UnpackedFloat.pack Format.binary64 _) = _
  rw [hpack]
  simp only [UnpackedFloat.unpack, unpackExponent_packComponents, unpackMantissa_packComponents,
    unpackSign_packComponents, Sign.ofBitVec_toBitVec]
  rw [if_neg hones, if_neg hzeros]
  congr 1
  · exact one_append_toNat hlow hhigh
  · rw [hbits]
    rfl

section
variable {n m : Nat}

theorem log2_le_of_lt (hn : 0 < n) (hlt : n < 2 ^ 53) : n.log2 ≤ 52 :=
  Nat.le_of_lt_succ ((Nat.log2_lt (Nat.ne_of_gt hn)).mpr hlt)

theorem unpackedWhole_of_pos (hn : 0 < n) : unpackedWhole n =
    .finite .positive (n * 2 ^ (52 - n.log2)) (-((52 - n.log2 : Nat) : Int))
      (Nat.mul_pos hn (Nat.two_pow_pos _)) :=
  dif_neg (Nat.ne_of_gt hn)

theorem unpack_pack_whole (hlt : n < 2 ^ 53) :
    (Float.Model.pack (unpackedWhole n)).unpack = unpackedWhole n := by
  rcases Nat.eq_zero_or_pos n with rfl | hn
  · exact unpack_packedZero
  have hlog := log2_le_of_lt hn hlt
  have hshifted : (n * 2 ^ (52 - n.log2)).log2 = 52 := by
    rw [log2_shifted hn]
    omega
  obtain ⟨hlow, hhigh⟩ := (Nat.log2_eq_iff
    (Nat.ne_of_gt (Nat.mul_pos hn (Nat.two_pow_pos _)))).mp hshifted
  rw [unpackedWhole_of_pos hn]
  exact unpack_pack_normal hlow hhigh (by omega) (by omega)

/-! ## Conversion and addition -/

theorem unpacked_ofNat (hlt : n < 2 ^ 53) :
    UnpackedFloat.ofNat Format.binary64 n = unpackedWhole n := by
  rcases Nat.eq_zero_or_pos n with rfl | hn
  · rfl
  have hcompare : compare (n : Int) 0 = .gt := by
    rw [Int.compare_eq_gt]
    omega
  have hround := @round_whole n 0 hn (log2_le_of_lt hn hlt)
  rw [Nat.pow_zero, Nat.mul_one] at hround
  unfold UnpackedFloat.ofNat UnpackedFloat.ofInt UnpackedFloat.normalize
  rw [hcompare]
  exact hround

/-- A whole number is not changed by a factor of one. -/
theorem unpacked_mul_one (hlt : n < 2 ^ 53) : UnpackedFloat.mul Format.binary64 (unpackedWhole n)
    (.finite .positive (2 ^ 52) (-52) (Nat.two_pow_pos 52)) = unpackedWhole n := by
  rcases Nat.eq_zero_or_pos n with rfl | hn
  · rfl
  have hmul : UnpackedFloat.mul Format.binary64 (unpackedWhole n)
      (.finite .positive (2 ^ 52) (-52) (Nat.two_pow_pos 52)) =
      roundWithAccuracy Format.binary64 .positive (n * 2 ^ (52 - n.log2) * 2 ^ 52)
        (-((52 - n.log2 : Nat) : Int) + -52) .exact := by
    rw [unpackedWhole_of_pos hn]
    rfl
  have hexponent : -((52 - n.log2 : Nat) : Int) + -52 = -((52 - n.log2 + 52 : Nat) : Int) := by
    omega
  rw [hmul, Nat.mul_assoc, ← Nat.pow_add, hexponent]
  exact roundWithAccuracy_whole hn (log2_le_of_lt hn hlt) (Nat.le_add_right _ _)

theorem ofNat_eq (hlt : n < 2 ^ 53) :
    Float.ofNat n = .ofModel (Float.Model.pack (unpackedWhole n)) := by
  have hword : n.toUInt64.toNat = n := by
    rw [Nat.toUInt64, UInt64.toNat_ofNat']
    omega
  have hone : (Float.ofBits 0x3FF0000000000000).toModel.unpack =
      .finite .positive (2 ^ 52) (-52) (Nat.two_pow_pos 52) := rfl
  -- The literal `n` is read as `n` times ten to the zero, which is one more product.
  have hproduct : Float.ofNat n = n.toUInt64.toFloat * Float.ofBits 0x3FF0000000000000 :=
    dif_pos ⟨hlt, by decide⟩
  have hconverted : n.toUInt64.toFloat.toModel.unpack = unpackedWhole n := by
    show (Float.Model.pack (UnpackedFloat.ofNat Format.binary64 n.toUInt64.toNat)).unpack = _
    rw [hword, unpacked_ofNat hlt, unpack_pack_whole hlt]
  rw [hproduct]
  show Float.ofModel (Float.Model.pack (UnpackedFloat.mul Format.binary64 _ _)) = _
  rw [hconverted, hone, unpacked_mul_one hlt]

theorem unpack_float_ofNat (hlt : n < 2 ^ 53) :
    (Float.ofNat n).toModel.unpack = unpackedWhole n := by
  rw [ofNat_eq hlt]
  exact unpack_pack_whole hlt

/-- An exponent is lowered by shifting the significand up. -/
theorem decreaseExponent_whole {i j : Nat} (hij : i ≤ j) (n : Nat) :
    decreaseExponent (n * 2 ^ i) (-(i : Int)) (-(j : Int)) = (n * 2 ^ j, -(j : Int)) := by
  obtain ⟨k, rfl⟩ := Nat.exists_eq_add_of_le hij
  have hshift : (-(i : Int) - -((i + k : Nat) : Int)).toNat = k := by omega
  rw [decreaseExponent, hshift, Nat.shiftLeft_eq, Nat.mul_assoc, ← Nat.pow_add]
  refine Prod.ext rfl ?_
  show -(i : Int) - (k : Int) = _
  omega

theorem unpacked_add (hlt : m + n < 2 ^ 53) :
    UnpackedFloat.add Format.binary64 (unpackedWhole m) (unpackedWhole n) =
      unpackedWhole (m + n) := by
  rcases Nat.eq_zero_or_pos m with rfl | hm
  · rcases Nat.eq_zero_or_pos n with rfl | hn
    · rfl
    · rw [unpackedWhole_of_pos hn, Nat.zero_add, unpackedWhole_of_pos hn]
      rfl
  rcases Nat.eq_zero_or_pos n with rfl | hn
  · rw [Nat.add_zero, unpackedWhole_of_pos hm]
    rfl
  -- Both are written with the smaller exponent, and the sum is rounded as a whole number is.
  obtain ⟨j, hj⟩ : ∃ j : Nat, min (-((52 - m.log2 : Nat) : Int)) (-((52 - n.log2 : Nat) : Int)) =
      -(j : Int) ∧ 52 - m.log2 ≤ j ∧ 52 - n.log2 ≤ j :=
    ⟨max (52 - m.log2) (52 - n.log2), by omega⟩
  have hsum : Sign.positive.apply ((m * 2 ^ j : Nat) : Int) +
      Sign.positive.apply ((n * 2 ^ j : Nat) : Int) = (((m + n) * 2 ^ j : Nat) : Int) := by
    rw [Nat.add_mul]
    exact (Int.natCast_add _ _).symm
  have hpos : 0 < m + n := Nat.add_pos_left hm n
  have hcompare : compare (((m + n) * 2 ^ j : Nat) : Int) 0 = .gt :=
    Int.compare_eq_gt.mpr (Int.natCast_pos.mpr (Nat.mul_pos hpos (Nat.two_pow_pos j)))
  rw [unpackedWhole_of_pos hm, unpackedWhole_of_pos hn]
  unfold UnpackedFloat.add
  simp only [hj.1, decreaseExponent_whole hj.2.1, decreaseExponent_whole hj.2.2, hsum,
    UnpackedFloat.normalize, hcompare, Int.toNat_natCast]
  exact round_whole hpos (log2_le_of_lt hpos hlt)

/-- Whole numbers of at most 53 bits are added without rounding. -/
theorem ofNat_add (hlt : m + n < 2 ^ 53) :
    Float.ofNat m + Float.ofNat n = Float.ofNat (m + n) := by
  show Float.ofModel (Float.Model.pack (UnpackedFloat.add Format.binary64 _ _)) = _
  rw [unpack_float_ofNat (Nat.lt_of_le_of_lt (Nat.le_add_right m n) hlt),
    unpack_float_ofNat (Nat.lt_of_le_of_lt (Nat.le_add_left n m) hlt), unpacked_add hlt,
    ofNat_eq hlt]

end

end Tabular.Number

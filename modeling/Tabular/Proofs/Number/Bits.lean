import Mathlib
import Tabular.Number.Parts

/-!
# Doubles and their bits

A double is its bit pattern, `Float.ofBits_toBits`, and core decodes it by three fields. So a
double without parts is one of three, and any other is told by its sign and the bits of its
magnitude.
-/
namespace Tabular.Number
open Float.Model Float.Model.UnpackedFloat

/-! ## Fields -/

section
variable (b : BitVec Format.binary64.numBits)

theorem toNat_unpackExponent : (unpackExponent b).toNat = b.toNat / 2 ^ 52 % 2 ^ 11 := by
  change (b.toNat >>> 52) % 2 ^ 11 = _
  rw [Nat.shiftRight_eq_div_pow]

theorem toNat_unpackMantissa : (unpackMantissa b).toNat = b.toNat % 2 ^ 52 := by
  change (b.toNat >>> 0) % 2 ^ 52 = _
  rw [Nat.shiftRight_zero]

theorem toNat_unpackSign : (unpackSign b).toNat = b.toNat / 2 ^ 63 % 2 := by
  change (b.toNat >>> 63) % 2 ^ 1 = _
  rw [Nat.shiftRight_eq_div_pow, pow_one]

end

theorem ofBitVec_eq {s : BitVec 1} {n : Nat} (h : s.toNat = n % 2) :
    Sign.ofBitVec s = if decide (n % 2 = 1) then .negative else .positive := by
  simp only [decide_eq_true_eq, Sign.ofBitVec, ← BitVec.toNat_inj, h, BitVec.toNat_ofNat]
  split
  · rw [if_neg (by omega)]
  · rw [if_pos (by omega)]

/-- The leading bit of a significand, which is not encoded. -/
theorem toNat_one_append (m : BitVec 52) : (1#1 ++ m).toNat = m.toNat + 2 ^ 52 := by
  have hor := Nat.two_pow_add_eq_or_of_lt m.isLt 1
  rw [BitVec.toNat_append, BitVec.toNat_ofNat, Nat.shiftLeft_eq, Nat.mul_comm]
  show 2 ^ 52 * 1 ||| m.toNat = _
  rw [← hor]
  omega

/-! ## Parts -/

/-- A double without parts is an infinity or NaN. -/
theorem special_of_parts?_eq_none {x : Float} (h : parts? x = none) :
    x = ofMagnitude false infinityBits ∨ x = ofMagnitude true infinityBits ∨ x = nan := by
  have hvalid : Format.binary64.Valid x.toBits.toBitVec := x.toModel.valid
  have hfield : @unpackExponent Format.binary64 x.toBits.toBitVec = -1#11 := by
    simp only [parts?, Parts.ofBits?] at h
    split at h
    · rename_i hf
      exact BitVec.eq_of_toNat_eq ((toNat_unpackExponent _).trans hf)
    · split at h <;> cases h
  by_cases hm : @unpackMantissa Format.binary64 x.toBits.toBitVec = 0#52
  · have hp := @packComponents_unpackSign_unpackExponent_unpackMantissa Format.binary64
      x.toBits.toBitVec
    rw [hfield, hm] at hp
    rw [← Float.ofBits_toBits x, ← UInt64.ofBitVec_toBitVec x.toBits, ← hp]
    cases Sign.ofBitVec (@unpackSign Format.binary64 x.toBits.toBitVec) with
    | positive => exact .inl rfl
    | negative => exact .inr (.inl rfl)
  · rw [← Float.ofBits_toBits x, ← UInt64.ofBitVec_toBitVec x.toBits, hvalid.eq_packedNaN hfield hm]
    exact .inr (.inr (by decide +kernel))

/-- A finite double has parts. -/
theorem exists_parts_of_isFinite {x : Float} (h : x.isFinite) : ∃ p, parts? x = some p := by
  refine Option.ne_none_iff_exists'.mp ?_
  intro hnone
  rcases special_of_parts?_eq_none hnone with rfl | rfl | rfl
  · exact absurd h (by decide +kernel)
  · exact absurd h (by decide +kernel)
  · exact absurd h (by decide +kernel)

/-- The sign bit is the highest. -/
theorem Parts.negative_eq {bits : Nat} {p : Parts} (h : Parts.ofBits? bits = some p) :
    p.negative = decide (bits / 2 ^ 63 % 2 = 1) := by
  simp only [Parts.ofBits?] at h
  split at h
  · cases h
  · split at h
    · cases h
      rfl
    · cases h
      rfl

theorem eq_ofMagnitude {x : Float} {p : Parts} (h : parts? x = some p) :
    x = ofMagnitude p.negative (x.toBits.toNat % twoTo 63) := by
  have hneg : p.negative = decide (x.toBits.toNat / 2 ^ 63 % 2 = 1) := Parts.negative_eq h
  have hlt := x.toBits.toNat_lt
  have hsum : (if p.negative then x.toBits.toNat % twoTo 63 + twoTo 63 else
      x.toBits.toNat % twoTo 63) = x.toBits.toNat := by
    have htwo : twoTo 63 = 2 ^ 63 := rfl
    rw [hneg, htwo]
    simp only [decide_eq_true_eq]
    split <;> omega
  rw [ofMagnitude, hsum, UInt64.ofNat_toNat, Float.ofBits_toBits]

/-- A bit pattern that is not past infinity is kept as the bits of a double, with either sign. -/
theorem toBits_ofMagnitude {bits : Nat} (h : bits ≤ infinityBits) (negative : Bool) :
    (ofMagnitude negative bits).toBits.toNat = if negative then bits + 2 ^ 63 else bits := by
  have hinfinity : infinityBits = 2047 * 2 ^ 52 := rfl
  have htwo : twoTo 63 = 2 ^ 63 := rfl
  rw [ofMagnitude, htwo]
  obtain ⟨n, hn⟩ : ∃ n, n = if negative then bits + 2 ^ 63 else bits := ⟨_, rfl⟩
  have hlt : n < 2 ^ 64 := by
    rw [hn]
    split <;> omega
  rw [← hn]
  have hbits : (UInt64.ofNat n).toBitVec.toNat = n := by
    show (UInt64.ofNat n).toNat = n
    rw [UInt64.toNat_ofNat', Nat.mod_eq_of_lt hlt]
  have hnumber : ¬ @isNaNBits Format.binary64 (UInt64.ofNat n).toBitVec := by
    intro hnan
    obtain ⟨hexponent, hmantissa⟩ := of_decide_eq_true hnan
    refine hmantissa (BitVec.eq_of_toNat_eq ?_)
    have hfield := toNat_unpackExponent (UInt64.ofNat n).toBitVec
    rw [hexponent, hbits] at hfield
    change 2047 = _ at hfield
    refine (toNat_unpackMantissa (UInt64.ofNat n).toBitVec).trans ?_
    rw [hbits]
    show n % 2 ^ 52 = 0
    have hcases : n = bits ∨ n = bits + 2 ^ 63 := by
      rw [hn]
      cases negative
      · exact .inl rfl
      · exact .inr rfl
    omega
  have hpack := @pack_unpack Format.binary64 (UInt64.ofNat n).toBitVec
  rw [if_neg hnumber] at hpack
  show (UnpackedFloat.pack Format.binary64
    (UnpackedFloat.unpack Format.binary64 (UInt64.ofNat n).toBitVec)).toNat = n
  rw [hpack, hbits]

end Tabular.Number

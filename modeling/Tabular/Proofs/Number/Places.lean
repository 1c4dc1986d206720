import Tabular.Proofs.Number.Literal

/-!
# Numbers in plain places

A finite double is written with digits, at most one point among them and no exponent
(`inPlaces_plain`). A whole number below `10 ^ 15` is written as whole numbers are
(`plain_whole`): its shortest decimal has no places behind the point, and between it and the
decimals that read back to it there is nothing to round.
-/
namespace Tabular.Number

/-! ## Digits with a point -/

/-- A minus or none, digits, and behind a point, if there is one, digits again. -/
inductive InPlaces : List Char → Prop
  | whole {negative ds} : ds ≠ [] → (∀ c ∈ ds, isDigit c) → InPlaces (signText negative ++ ds)
  | point {negative ds fs} : ds ≠ [] → fs ≠ [] → (∀ c ∈ ds ++ fs, isDigit c) →
      InPlaces (signText negative ++ (ds ++ '.' :: fs))

section
variable {cs : List Char} {negative : Bool}

theorem mem_signText {c : Char} (h : c ∈ signText negative) : c = '-' := by
  cases negative with
  | true => exact List.mem_singleton.mp h
  | false => cases h

theorem InPlaces.mem (h : InPlaces cs) {c : Char} (hc : c ∈ cs) :
    isDigit c ∨ c = '-' ∨ c = '.' := by
  cases h with
  | whole _ hdigits =>
    obtain hc | hc := List.mem_append.mp hc
    · exact .inr (.inl (mem_signText hc))
    · exact .inl (hdigits c hc)
  | point _ _ hdigits =>
    obtain hc | hc := List.mem_append.mp hc
    · exact .inr (.inl (mem_signText hc))
    obtain hc | hc := List.mem_append.mp hc
    · exact .inl (hdigits c (List.mem_append_left _ hc))
    obtain rfl | hc := List.mem_cons.mp hc
    · exact .inr (.inr rfl)
    · exact .inl (hdigits c (List.mem_append_right _ hc))

theorem inPlaces_digits {whole fraction : List Char} (hne : whole ≠ [])
    (hw : ∀ c ∈ whole, isDigit c) (hf : ∀ c ∈ fraction, isDigit c) :
    InPlaces (signText negative ++ whole ++ if fraction.isEmpty then [] else '.' :: fraction) := by
  rw [List.append_assoc]
  cases fraction with
  | nil =>
    rw [List.isEmpty_nil, if_pos rfl, List.append_nil]
    exact .whole hne hw
  | cons c rest =>
    refine .point hne (List.cons_ne_nil c rest) fun d hd => ?_
    exact (List.mem_append.mp hd).elim (hw d) (hf d)

/-- Whatever decimal it is, its plain places are digits with at most one point. -/
theorem Decimal.inPlaces_plain (d : Decimal) : InPlaces d.plain.toList := by
  obtain ⟨negative, n, e⟩ := d
  by_cases hn : n = 0
  · have hzero := @inPlaces_digits negative ['0'] [] (List.cons_ne_nil _ _)
      (fun c hc => isDigit_of_mem_zero hc) (fun c hc => absurd hc List.not_mem_nil)
    simpa [Decimal.plain, Decimal.places, hn] using hzero
  · obtain ⟨⟨whole, fraction⟩, hpos⟩ :
        ∃ p, positional (Nat.toDigits 10 n) ((Nat.toDigits 10 n).length + e) = p := ⟨_, rfl⟩
    obtain ⟨hne, hw, hf, -, -⟩ := positional_spec n e hpos
    have hplaces := @inPlaces_digits negative whole fraction hne hw hf
    simpa [Decimal.plain, Decimal.places, hn, hpos] using hplaces

end

theorem exists_shortest {x : Float} (hx : x.isFinite) (tie : Tie) :
    ∃ d, shortest? tie x = some d := by
  obtain ⟨p, hp⟩ := exists_parts_of_isFinite hx
  rw [shortest?, hp]
  exact ⟨_, rfl⟩

/-- A finite double is written as a literal without an exponent, and that denotes the double. -/
theorem inPlaces_plain {x : Float} (hx : x.isFinite) : InPlaces (plain x).toList ∧
    ∃ d, Decimal.read? (plain x).toList = some d ∧ d.toFloat = x := by
  obtain ⟨d, hd⟩ := exists_shortest hx .up
  obtain ⟨d', hread, hnegative, hbits⟩ := Decimal.read?_plain d
  have hplain : plain x = d.plain := by rw [plain, hd]
  rw [hplain]
  refine ⟨d.inPlaces_plain, d', hread, ?_⟩
  rw [Decimal.toFloat, hnegative, hbits, ← Decimal.toFloat, toFloat_of_shortest? hd]

/-! ## Whole numbers -/

theorem toDigits_mul_tenTo {n : Nat} (hn : n ≠ 0) (k : Nat) :
    Nat.toDigits 10 (n * tenTo k) = Nat.toDigits 10 n ++ List.replicate k '0' := by
  induction k with
  | zero => simp [tenTo]
  | succ k ih =>
    have hpos : 0 < n * tenTo k := Nat.mul_pos (Nat.pos_of_ne_zero hn) (tenTo_pos k)
    have hzero := Nat.toDigits_append_toDigits (b := 10) (d := 0) (by decide) hpos (by decide)
    have hnext : n * tenTo (k + 1) = 10 * (n * tenTo k) + 0 := by
      rw [tenTo_add]
      show n * (tenTo k * 10) = _
      ring
    rw [hnext, ← hzero, ih, List.append_assoc, List.replicate_succ']
    rfl

/-- A decimal that is a whole number has the digits of that number. -/
theorem Decimal.plain_whole {d : Decimal} (hd : d.digits ≠ 0) (he : 0 ≤ d.exponent) :
    d.plain.toList =
      signText d.negative ++ Nat.toDigits 10 (d.digits * tenTo d.exponent.toNat) := by
  have hlength : 0 < (Nat.toDigits 10 d.digits).length := Nat.length_toDigits_pos
  have hpoint : ¬ ((Nat.toDigits 10 d.digits).length : Int) + d.exponent ≤ 0 := by omega
  have hall : (Nat.toDigits 10 d.digits).length ≤
      ((Nat.toDigits 10 d.digits).length + d.exponent).toNat := by omega
  have hzeros : ((Nat.toDigits 10 d.digits).length + d.exponent).toNat -
      (Nat.toDigits 10 d.digits).length = d.exponent.toNat := by omega
  rw [toDigits_mul_tenTo hd]
  simp only [Decimal.plain, Decimal.places, hd, if_false, positional, hpoint,
    List.take_of_length_le hall, List.drop_of_length_le hall, hzeros, String.toList_ofList]
  rw [List.isEmpty_nil, if_pos rfl, List.append_nil]

theorem exists_le_of_findSome?_range {α : Type} {f : Nat → Option α} {n i : Nat} (hi : i < n)
    (h : (f i).isSome) : ∃ j ≤ i, ∃ a, f j = some a ∧ (List.range n).findSome? f = some a := by
  have hsome : ((List.range n).findSome? f).isSome :=
    List.findSome?_isSome_iff.mpr ⟨i, List.mem_range.mpr hi, h⟩
  obtain ⟨a, ha⟩ := Option.isSome_iff_exists.mp hsome
  obtain ⟨before, j, after, hrange, hj, hnone⟩ := List.findSome?_eq_some_iff.mp ha
  refine ⟨j, ?_, a, hj, ha⟩
  have hsorted : (List.range n).Pairwise (· < ·) := List.pairwise_lt_range
  have hmem : i ∈ before ++ j :: after := hrange ▸ List.mem_range.mpr hi
  rw [hrange, List.pairwise_append] at hsorted
  obtain ⟨-, hafter, -⟩ := hsorted
  rcases List.mem_append.mp hmem with hi | hi
  · rw [hnone i hi] at h
    cases h
  · rcases List.mem_cons.mp hi with rfl | hi
    · exact Nat.le_refl _
    · exact Nat.le_of_lt ((List.pairwise_cons.mp hafter).1 i hi)

section
variable {x : Float} {p : Parts} {m : Nat}

theorem withSign_inj {negative : Bool} {q r : ℚ} (h : withSign negative q = withSign negative r) :
    q = r := by
  cases negative with
  | false => exact h
  | true => exact neg_inj.mp h

/-- Below `2 ^ 53` a whole number is not rounded, so that only one of them reads back. -/
theorem eq_of_magnitudeBits (hp : parts? x = some p) (hnum : p.num = m * p.den) {c k : Nat}
    (hlt : c * tenTo k < 2 ^ 53)
    (hbits : (Decimal.mk p.negative c k).magnitudeBits = x.toBits.toNat % twoTo 63) :
    c * tenTo k = m := by
  have hfloat : (Decimal.mk p.negative c k).toFloat = x := by
    rw [Decimal.toFloat, hbits, ← eq_ofMagnitude hp]
  have hvalue : (Decimal.mk p.negative c k).value =
      withSign p.negative ((c * tenTo k : ℕ) * 2 ^ (0 : ℤ)) := by
    simp [Decimal.value, tenTo]
  have hresult := (Decimal.mk p.negative c k).isResult_toFloat
  rw [hfloat, hvalue] at hresult
  obtain ⟨-, hexact⟩ := hresult.exact_scaled hlt (by decide) (by decide)
  have hden : (p.den : ℚ) ≠ 0 := by exact_mod_cast Nat.ne_of_gt p.den_pos
  rw [exact_of_parts hp, ← p.num_div_den, hnum, Nat.cast_mul, mul_div_cancel_right₀ _ hden,
    zpow_zero, mul_one] at hexact
  exact_mod_cast (withSign_inj hexact).symm

theorem significand_ne_zero (hm : 0 < m) (hnum : p.num = m * p.den) : p.significand ≠ 0 := by
  intro h0
  have hzero : m * p.den = 0 := by rw [← hnum, Parts.num, h0, Nat.zero_mul]
  exact absurd hzero (Nat.ne_of_gt (Nat.mul_pos hm p.den_pos))

theorem candidate?_isSome {tie : Tie} {num den bits : Nat} {unit : Int}
    (h : (Decimal.mk false (num * tenTo (-unit).toNat / (den * tenTo unit.toNat))
      unit).magnitudeBits = bits) : (candidate? tie num den bits unit).isSome := by
  simp only [candidate?, h, beq_self_eq_true]
  split <;> simp_all

/-- The number itself is a candidate, with no place behind the point and none left out. -/
theorem candidate?_whole (hp : parts? x = some p) (hm : 0 < m) (hlt : m < 10 ^ 15)
    (hnum : p.num = m * p.den) (tie : Tie) :
    (candidate? tie p.num p.den (x.toBits.toNat % twoTo 63) 0).isSome := by
  have hdigits : digitCount m ≤ 15 := (digitCount_le_iff (by decide)).mpr hlt
  have hlow : p.num * tenTo (-0 : Int).toNat / (p.den * tenTo (0 : Int).toNat) = m := by
    rw [hnum]
    exact (congrArg₂ (· / ·) (Nat.mul_one _) (Nat.mul_one _)).trans
      (Nat.mul_div_cancel _ p.den_pos)
  refine candidate?_isSome ?_
  rw [hlow, magnitudeBits_of_places (Nat.ne_of_gt hm) (by simp only; omega) (by simp only; omega),
    ← nearestBits_parts hp (significand_ne_zero hm hnum)]
  exact nearestBits_congr (tenTo_pos _) p.den_pos (by simp [hnum, tenTo])

/-- A candidate that leaves out no more than all places but the first is the number itself. -/
theorem candidate?_eq_whole (hp : parts? x = some p) (hm : 0 < m) (hlt : m < 10 ^ 15)
    (hnum : p.num = m * p.den) {tie : Tie} {c k : Nat} (hk : k < digitCount m)
    (h : candidate? tie p.num p.den (x.toBits.toNat % twoTo 63) k = some c) :
    c * tenTo k = m := by
  obtain ⟨hnear, hbits⟩ := candidate?_spec h
  have hlow : p.num * tenTo (-(k : Int)).toNat / (p.den * tenTo (k : Int).toNat) = m / tenTo k := by
    have hnone : (-(k : Int)).toNat = 0 := by omega
    rw [hnum, hnone, Int.toNat_natCast, Nat.mul_comm m]
    exact (congrArg (· / _) (Nat.mul_one _)).trans (Nat.mul_div_mul_left _ _ p.den_pos)
  have hpower : tenTo k ≤ m :=
    (tenTo_le_tenTo (by omega)).trans (tenTo_digitCount_le (Nat.ne_of_gt hm))
  have hself : m / tenTo k * tenTo k ≤ m := Nat.div_mul_le_self m (tenTo k)
  refine eq_of_magnitudeBits hp hnum ?_ hbits
  rw [hlow] at hnear
  rcases hnear with rfl | rfl
  · omega
  · rw [Nat.add_one_mul]
    omega

theorem shortest?_whole (hp : parts? x = some p) (hm : 0 < m) (hlt : m < 10 ^ 15)
    (hnum : p.num = m * p.den) (tie : Tie) : ∃ d, shortest? tie x = some d ∧
      d.negative = p.negative ∧ d.digits ≠ 0 ∧ 0 ≤ d.exponent ∧
      d.digits * tenTo d.exponent.toNat = m := by
  have hdigits : digitCount m ≤ 15 := (digitCount_le_iff (by decide)).mpr hlt
  have hcount := digitCount_pos m
  have hpoint : decimalPoint p.num p.den = digitCount m := by
    rw [decimalPoint, hnum, if_pos (Nat.le_mul_of_pos_left _ hm), Nat.mul_div_cancel _ p.den_pos]
  have hunit : (digitCount m : Int) - ((digitCount m - 1 + 1 : Nat) : Int) = 0 := by omega
  obtain ⟨n, hn, d, hd, hfound⟩ := exists_le_of_findSome?_range
    (f := fun n => (candidate? tie p.num p.den (x.toBits.toNat % twoTo 63)
      (digitCount m - (n + 1 : Nat))).map fun c =>
        Decimal.mk p.negative c (digitCount m - (n + 1 : Nat)))
    (n := 17) (i := digitCount m - 1) (by omega)
    (by rw [hunit, Option.isSome_map]; exact candidate?_whole hp hm hlt hnum tie)
  obtain ⟨c, hc, rfl⟩ := Option.map_eq_some_iff.mp hd
  obtain ⟨k, hk⟩ : ∃ k : Nat, (digitCount m : Int) - (n + 1 : Nat) = k :=
    ⟨digitCount m - (n + 1), by omega⟩
  rw [hk] at hc hfound
  have hvalue : c * tenTo k = m := candidate?_eq_whole hp hm hlt hnum (by omega) hc
  have hc0 : c ≠ 0 := by
    rintro rfl
    omega
  obtain ⟨zeros, hstrip, hexponent⟩ := strip_digits (d := ⟨p.negative, c, k⟩) hc0
  refine ⟨(Decimal.mk p.negative c k).strip, ?_, strip_negative _, ?_, ?_, ?_⟩
  · rw [shortest?, hp, Option.map_some, if_neg (significand_ne_zero hm hnum)]
    simp only [hpoint, hfound, Option.getD_some]
  · intro h0
    rw [h0, Nat.zero_mul] at hstrip
    exact hc0 hstrip
  · rw [hexponent]
    positivity
  · have hsum : (Decimal.mk p.negative c k).strip.exponent.toNat = zeros + k := by
      rw [hexponent]
      simp only
      omega
    rw [hsum, tenTo_add, ← Nat.mul_assoc, ← hstrip]
    exact hvalue

end

/-- A whole number below `10 ^ 15` is written as whole numbers are. -/
theorem plain_whole {x : Float} (hx : x.isFinite) {z : ℤ} (h : Number.exact x = z) (hz : z ≠ 0)
    (hlt : |z| < 10 ^ 15) : plain x = toString z := by
  obtain ⟨p, hp⟩ := exists_parts_of_isFinite hx
  have hden : (p.den : ℚ) ≠ 0 := by exact_mod_cast Nat.ne_of_gt p.den_pos
  have hnum : p.num = z.natAbs * p.den := by
    have habs := abs_exact_of_parts hp
    rw [h, ← Int.cast_abs, Int.abs_eq_natAbs, Int.cast_natCast, eq_div_iff hden] at habs
    exact_mod_cast habs.symm
  have hnegative : p.negative = decide (z < 0) := by
    have hmagnitude : (0 : ℚ) ≤ p.significand * 2 ^ p.exponent := by positivity
    rw [exact_of_parts hp] at h
    cases hn : p.negative with
    | false =>
      rw [hn] at h
      have hz0 : (0 : ℚ) ≤ z := hmagnitude.trans_eq h
      exact (decide_eq_false (not_lt.mpr (by exact_mod_cast hz0))).symm
    | true =>
      rw [hn] at h
      have hz0 : (z : ℚ) ≤ 0 := h.symm.trans_le (neg_nonpos.mpr hmagnitude)
      exact (decide_eq_true (lt_of_le_of_ne (by exact_mod_cast hz0) hz)).symm
  have hsmall : z.natAbs < 10 ^ 15 := by
    rw [Int.abs_eq_natAbs] at hlt
    exact_mod_cast hlt
  obtain ⟨d, hd, hdnegative, hdigits, hexponent, hvalue⟩ :=
    shortest?_whole hp (Int.natAbs_pos.mpr hz) hsmall hnum .up
  have hplain : plain x = d.plain := by rw [plain, hd]
  rw [← String.toList_inj, hplain, Decimal.plain_whole hdigits hexponent, hvalue, hdnegative,
    hnegative, toList_toString_int]

end Tabular.Number

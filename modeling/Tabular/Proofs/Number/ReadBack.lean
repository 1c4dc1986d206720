import Tabular.Number.Layout
import Tabular.Proofs.Number.Rounding
import Tabular.Proofs.Text.Classes

/-!
# Numbers read back from their text

The shortest decimal of a double denotes the double, and so does its text in plain
places: `read?` undoes `plain` on every double, the infinities and NaN among them.
-/
namespace Tabular.Number

/-! ## Decimal digits -/

theorem tenTo_add (m n : Nat) : tenTo (m + n) = tenTo m * tenTo n := Nat.pow_add 10 m n

theorem tenTo_le_tenTo {m n : Nat} (h : m ≤ n) : tenTo m ≤ tenTo n :=
  Nat.pow_le_pow_right (by decide) h

theorem twoTo_le_twoTo {m n : Nat} (h : m ≤ n) : twoTo m ≤ twoTo n :=
  Nat.pow_le_pow_right (by decide) h

theorem digitCount_pos (n : Nat) : 0 < digitCount n := Nat.length_toDigits_pos

theorem digitCount_le_iff {n k : Nat} (hk : 0 < k) : digitCount n ≤ k ↔ n < tenTo k :=
  Nat.length_toDigits_le_iff (by decide) hk

theorem lt_tenTo_digitCount (n : Nat) : n < tenTo (digitCount n) :=
  (digitCount_le_iff (digitCount_pos n)).mp (Nat.le_refl _)

/-- A zero at the end of a number is a digit more. -/
theorem digitCount_mul_tenTo {n : Nat} (hn : n ≠ 0) (k : Nat) :
    digitCount (n * tenTo k) = digitCount n + k := by
  have hlt := lt_tenTo_digitCount (n * tenTo k)
  have hk : k < digitCount (n * tenTo k) := by
    refine Nat.lt_of_not_le ?_
    intro hle
    have hpow := tenTo_le_tenTo hle
    have hself := Nat.le_mul_of_pos_left (tenTo k) (Nat.pos_of_ne_zero hn)
    omega
  refine Nat.le_antisymm ?_ ?_
  · rw [digitCount_le_iff (Nat.add_pos_left (digitCount_pos n) k), tenTo_add]
    exact Nat.mul_lt_mul_of_pos_right (lt_tenTo_digitCount n) (tenTo_pos k)
  · have hsub : digitCount (n * tenTo k) = digitCount (n * tenTo k) - k + k := by omega
    rw [hsub, tenTo_add] at hlt
    have hle := (digitCount_le_iff (n := n) (by omega)).mpr (Nat.lt_of_mul_lt_mul_right hlt)
    omega

/-- Zeros moved between the digits and the power of ten leave the double as it is. -/
theorem magnitudeBits_mul_tenTo (negative : Bool) (n k : Nat) (e : Int) :
    (Decimal.mk negative (n * tenTo k) e).magnitudeBits =
      (Decimal.mk negative n (e + k)).magnitudeBits := by
  rcases eq_or_ne n 0 with rfl | hn
  · simp [Decimal.magnitudeBits]
  have hnk : n * tenTo k ≠ 0 := Nat.mul_ne_zero hn (Nat.ne_of_gt (tenTo_pos k))
  have hplaces : ((digitCount n + k : Nat) : Int) + e = digitCount n + (e + k) := by
    push_cast
    omega
  have hbits : nearestBits (n * tenTo k * tenTo e.toNat) (tenTo (-e).toNat) =
      nearestBits (n * tenTo (e + k).toNat) (tenTo (-(e + k)).toNat) := by
    refine nearestBits_congr (tenTo_pos _) (tenTo_pos _) ?_
    have hexp : k + e.toNat + (-(e + k)).toNat = (e + k).toNat + (-e).toNat := by omega
    have hpow := congrArg tenTo hexp
    rw [tenTo_add, tenTo_add, tenTo_add] at hpow
    rw [Nat.mul_assoc n, Nat.mul_assoc n, hpow, Nat.mul_assoc n]
  simp only [Decimal.magnitudeBits, digitCount_mul_tenTo hn, hplaces, hbits, hn, hnk]

/-- The digits without the zeros at their end, and those zeros. -/
theorem ofDigitChars_zeros (cs : List Char) :
    Nat.ofDigitChars 10 cs 0 =
      Nat.ofDigitChars 10 (cs.reverse.dropWhile (· == '0')).reverse 0 *
        tenTo (cs.reverse.takeWhile (· == '0')).length := by
  have hsplit : cs = (cs.reverse.dropWhile (· == '0')).reverse ++
      (cs.reverse.takeWhile (· == '0')).reverse := by
    rw [← List.reverse_append, List.takeWhile_append_dropWhile, List.reverse_reverse]
  have hzeros : (cs.reverse.takeWhile (· == '0')).reverse =
      List.replicate (cs.reverse.takeWhile (· == '0')).length '0' := by
    refine List.eq_replicate_iff.mpr ⟨List.length_reverse, ?_⟩
    intro c hc
    simpa using List.mem_takeWhile_imp (List.mem_reverse.mp hc)
  conv_lhs => rw [hsplit, Nat.ofDigitChars_append, hzeros, Nat.ofDigitChars_replicate_zero]
  exact Nat.mul_comm _ _

/-- Zeros at the end of the digits are moved, and nothing else is. -/
theorem strip_digits {d : Decimal} (hd : d.digits ≠ 0) : ∃ zeros : Nat,
    d.digits = d.strip.digits * tenTo zeros ∧ d.strip.exponent = d.exponent + zeros := by
  have hzeros := ofDigitChars_zeros (Nat.toDigits 10 d.digits)
  rw [Nat.ofDigitChars_ten_toDigits] at hzeros
  simp only [Decimal.strip, if_neg hd]
  generalize ((Nat.toDigits 10 d.digits).reverse.takeWhile (· == '0')).length = zeros at *
  generalize Nat.ofDigitChars 10 _ 0 = front at hzeros
  refine ⟨zeros, ?_, rfl⟩
  rw [hzeros, Nat.mul_div_cancel _ (tenTo_pos zeros)]

theorem strip_magnitudeBits (d : Decimal) : d.strip.magnitudeBits = d.magnitudeBits := by
  by_cases hd : d.digits = 0
  · simp [Decimal.strip, Decimal.magnitudeBits, hd]
  · obtain ⟨zeros, hdigits, hexponent⟩ := strip_digits hd
    calc d.strip.magnitudeBits
        = (Decimal.mk d.negative d.strip.digits (d.exponent + zeros)).magnitudeBits := by
          rw [← hexponent]; rfl
      _ = (Decimal.mk d.negative (d.strip.digits * tenTo zeros) d.exponent).magnitudeBits :=
          (magnitudeBits_mul_tenTo ..).symm
      _ = d.magnitudeBits := by rw [← hdigits]

theorem strip_negative (d : Decimal) : d.strip.negative = d.negative := by
  simp only [Decimal.strip]
  split <;> rfl

/-! ## The shortest decimal -/

/-- A candidate is on one side or the other, and reads back to the double it was made for. -/
theorem candidate?_spec {tie : Tie} {num den bits c : Nat} {unit : Int}
    (h : candidate? tie num den bits unit = some c) :
    (c = num * tenTo (-unit).toNat / (den * tenTo unit.toNat) ∨
      c = num * tenTo (-unit).toNat / (den * tenTo unit.toNat) + 1) ∧
    (Decimal.mk false c unit).magnitudeBits = bits := by
  simp only [candidate?] at h
  split at h
  · rename_i hlow hhigh
    have hc : c = num * tenTo (-unit).toNat / (den * tenTo unit.toNat) ∨
        c = num * tenTo (-unit).toNat / (den * tenTo unit.toNat) + 1 := by grind
    refine ⟨hc, ?_⟩
    rcases hc with rfl | rfl
    · exact beq_iff_eq.mp hlow
    · exact beq_iff_eq.mp hhigh
  · rename_i hlow _
    cases h
    exact ⟨.inl rfl, beq_iff_eq.mp hlow⟩
  · rename_i _ hhigh
    cases h
    exact ⟨.inr rfl, beq_iff_eq.mp hhigh⟩
  · cases h

theorem candidate?_eq_some {tie : Tie} {num den bits c : Nat} {unit : Int}
    (h : candidate? tie num den bits unit = some c) (negative : Bool) :
    (Decimal.mk negative c unit).magnitudeBits = bits := (candidate?_spec h).2

theorem largest_lt_tenTo : twoTo 53 * twoTo 971 ≤ tenTo 310 := by decide +kernel

-- The exponent stands behind a binder so that no later step computes the power.
theorem tenTo_le_pow_five : ∃ m, m = 1074 ∧ tenTo 743 ≤ Nat.pow 5 m :=
  ⟨1074, rfl, by decide +kernel⟩

/-- Comparisons of a power of five with one of ten carry over to larger powers. -/
theorem pow_five_lt_tenTo {j k m : Nat} (hk : k ≤ m) (h : Nat.pow 5 k < tenTo j) :
    Nat.pow 5 m < tenTo (j + (m - k)) := by
  obtain ⟨n, rfl⟩ := Nat.exists_eq_add_of_le hk
  rw [Nat.add_sub_cancel_left, tenTo_add]
  calc 5 ^ (k + n) = 5 ^ k * 5 ^ n := Nat.pow_add 5 k n
    _ < tenTo j * 5 ^ n := Nat.mul_lt_mul_of_pos_right h (Nat.pow_pos (by decide))
    _ ≤ tenTo j * tenTo n := Nat.mul_le_mul_left _ (Nat.pow_le_pow_left (by decide) n)

theorem digitCount_mul_pow_five {s k : Nat} (hs : 0 < s) (hlt : s < twoTo 53) (hk : k ≤ 1074) :
    k ≤ digitCount (s * Nat.pow 5 k) + 330 ∧ digitCount (s * Nat.pow 5 k) ≤ 310 + k := by
  constructor
  · by_contra hshort
    have hdigits := lt_tenTo_digitCount (s * Nat.pow 5 k)
    have hself : Nat.pow 5 k ≤ s * Nat.pow 5 k := Nat.le_mul_of_pos_left _ hs
    obtain ⟨m, hm, hlong⟩ := tenTo_le_pow_five
    have hfive := pow_five_lt_tenTo (hm ▸ hk) (Nat.lt_of_le_of_lt hself hdigits)
    have hten : tenTo (digitCount (s * Nat.pow 5 k) + (m - k)) ≤ tenTo 743 :=
      tenTo_le_tenTo (by omega)
    exact absurd hfive (Nat.not_lt.mpr (Nat.le_trans hten hlong))
  · rw [digitCount_le_iff (by omega), tenTo_add]
    have hone : twoTo 53 ≤ tenTo 310 :=
      Nat.le_trans (Nat.le_mul_of_pos_right _ (twoTo_pos 971)) largest_lt_tenTo
    calc s * 5 ^ k < tenTo 310 * 5 ^ k :=
          Nat.mul_lt_mul_of_pos_right (Nat.lt_of_lt_of_le hlt hone) (Nat.pow_pos (by decide))
      _ ≤ tenTo 310 * tenTo k := Nat.mul_le_mul_left _ (Nat.pow_le_pow_left (by decide) k)

theorem digitCount_num {p : Parts} (hsig : p.significand < twoTo 53) (he : p.exponent ≤ 971) :
    digitCount p.num ≤ 310 := by
  rw [digitCount_le_iff (by decide)]
  have hpow : twoTo p.exponent.toNat ≤ twoTo 971 := twoTo_le_twoTo (by omega)
  calc p.significand * twoTo p.exponent.toNat
      < twoTo 53 * twoTo p.exponent.toNat := Nat.mul_lt_mul_of_pos_right hsig (twoTo_pos _)
    _ ≤ twoTo 53 * twoTo 971 := Nat.mul_le_mul_left _ hpow
    _ ≤ tenTo 310 := largest_lt_tenTo

theorem magnitudeBits_of_places {d : Decimal} (hn : d.digits ≠ 0)
    (hlow : -330 ≤ (digitCount d.digits : Int) + d.exponent)
    (hhigh : (digitCount d.digits : Int) + d.exponent ≤ 310) :
    d.magnitudeBits = nearestBits (d.digits * tenTo d.exponent.toNat) (tenTo (-d.exponent).toNat) := by
  simp only [Decimal.magnitudeBits]
  rw [if_neg (by simp only [hn, false_or]; omega), if_neg (by omega)]

/-- A double written out in full is within the places that are read. -/
theorem exact_magnitudeBits {bits : Nat} {p : Parts} (h : Parts.ofBits? bits = some p)
    (hs : p.significand ≠ 0) : p.exact.magnitudeBits = bits % twoTo 63 := by
  obtain ⟨hsig, hlow, hhigh, -, -⟩ := Parts.ofBits?_eq_some h
  rw [← nearestBits_parts h hs]
  simp only [Parts.exact]
  split
  · rename_i he
    have hnum : p.num ≠ 0 := Nat.mul_ne_zero hs (Nat.ne_of_gt (twoTo_pos _))
    have hcount := digitCount_num hsig hhigh
    rw [magnitudeBits_of_places hnum (by simp only; omega) (by simp only; omega)]
    refine nearestBits_congr (tenTo_pos _) p.den_pos ?_
    have hneg : (-p.exponent).toNat = 0 := by omega
    simp [Parts.den, hneg, tenTo, twoTo]
  -- A half is five tenths: `k` places below the point in binary are `k` in decimal.
  · rename_i he
    obtain ⟨k, hk⟩ : ∃ k : Nat, p.exponent = -k := ⟨(-p.exponent).toNat, by omega⟩
    obtain ⟨hlo, hhi⟩ := digitCount_mul_pow_five (Nat.pos_of_ne_zero hs) hsig (k := k) (by omega)
    have hn : p.significand * Nat.pow 5 k ≠ 0 :=
      Nat.mul_ne_zero hs (Nat.ne_of_gt (Nat.pow_pos (by decide)))
    simp only [hk, Int.neg_neg, Int.toNat_natCast]
    rw [magnitudeBits_of_places hn (by simp only; omega) (by simp only; omega)]
    refine nearestBits_congr (tenTo_pos _) p.den_pos ?_
    have hten : tenTo k = Nat.pow 5 k * twoTo k := Nat.mul_pow 5 2 k
    have hzero : (-(k : Int)).toNat = 0 := by omega
    have hone : tenTo 0 = twoTo 0 := rfl
    simp only [Parts.num, Parts.den, hk, hzero, Int.neg_neg, Int.toNat_natCast, hten, hone,
      Nat.mul_assoc, Nat.mul_left_comm (twoTo 0)]

/-- The shortest decimal of a double has the double's sign and is nearest to it. -/
theorem shortest?_eq_some {tie : Tie} {x : Float} {d : Decimal} (h : shortest? tie x = some d) :
    ∃ p, parts? x = some p ∧ d.negative = p.negative ∧
      d.magnitudeBits = x.toBits.toNat % twoTo 63 := by
  obtain ⟨p, hp, rfl⟩ := Option.map_eq_some_iff.mp h
  refine ⟨p, hp, ?_⟩
  split
  · rename_i hs
    obtain ⟨-, -, -, hlead, hbits⟩ := Parts.ofBits?_eq_some hp
    have hzero : x.toBits.toNat % 2 ^ 63 = 0 := by omega
    exact ⟨rfl, hzero.symm⟩
  · rename_i hs
    rw [strip_negative, strip_magnitudeBits]
    cases hfound : (List.range 17).findSome? _ with
    | none =>
      refine ⟨?_, exact_magnitudeBits hp hs⟩
      simp only [Option.getD_none, Parts.exact]
      split <;> rfl
    | some d =>
      obtain ⟨n, -, hn⟩ := List.exists_of_findSome?_eq_some hfound
      obtain ⟨c, hc, rfl⟩ := Option.map_eq_some_iff.mp hn
      exact ⟨rfl, candidate?_eq_some hc p.negative⟩

/-- A double is what its shortest decimal denotes. -/
theorem toFloat_of_shortest? {tie : Tie} {x : Float} {d : Decimal}
    (h : shortest? tie x = some d) : d.toFloat = x := by
  obtain ⟨p, hp, hneg, hbits⟩ := shortest?_eq_some h
  rw [Decimal.toFloat, hneg, hbits, ← eq_ofMagnitude hp]

/-! ## Text in plain places -/

theorem ne_of_isDigit {c a : Char} (h : isDigit c) (ha : isDigit a = false) : c ≠ a := by
  rintro rfl
  rw [ha] at h
  cases h

theorem isDigit_of_mem_toDigits {n : Nat} {c : Char} (h : c ∈ Nat.toDigits 10 n) :
    isDigit c = true := Nat.isDigit_of_mem_toDigits (by decide) (by decide) h

theorem digitsValue_eq (cs : List Char) : digitsValue cs = Nat.ofDigitChars 10 cs 0 :=
  Nat.ofDigitChars_eq_foldl.symm

theorem isDigit_of_mem_replicate {n : Nat} {c : Char} (h : c ∈ List.replicate n '0') :
    isDigit c = true := by
  rw [List.eq_of_mem_replicate h]
  decide

theorem isDigit_of_mem_zero {c : Char} (h : c ∈ ['0']) : isDigit c = true :=
  isDigit_of_mem_replicate (n := 1) h

theorem toList_toString_int (i : Int) :
    (toString i).toList = signText (i < 0) ++ Nat.toDigits 10 i.natAbs := by
  rw [Int.toString_eq_repr]
  cases i with
  | ofNat n =>
    have hneg : ¬ Int.ofNat n < 0 := by simp
    simp [Int.repr, Nat.repr_eq_ofList_toDigits, signText]
  | negSucc n => simp [Int.repr, Nat.repr_eq_ofList_toDigits, signText]

/-- What plain places are made of: digits before the point, at least one, and digits
after it, which together are the digits of the decimal with its zeros. -/
theorem positional_spec (n : Nat) (e : Int) {whole fraction : List Char}
    (h : positional (Nat.toDigits 10 n) ((Nat.toDigits 10 n).length + e) = (whole, fraction)) :
    whole ≠ [] ∧ (∀ c ∈ whole, isDigit c) ∧ (∀ c ∈ fraction, isDigit c) ∧
      digitsValue (whole ++ fraction) = n * tenTo e.toNat ∧ fraction.length = (-e).toNat := by
  have hlen := @Nat.length_toDigits_pos 10 n
  have hdigit : ∀ c ∈ Nat.toDigits 10 n, isDigit c := fun c hc => isDigit_of_mem_toDigits hc
  have hvalue : Nat.ofDigitChars 10 (Nat.toDigits 10 n) 0 = n := Nat.ofDigitChars_ten_toDigits
  generalize Nat.toDigits 10 n = ds at *
  unfold positional at h
  split at h
  · rename_i hpoint
    obtain ⟨rfl, rfl⟩ := Prod.mk.inj h
    refine ⟨by simp, fun c hc => isDigit_of_mem_zero hc, ?_, ?_, ?_⟩
    · intro c hc
      rcases List.mem_append.mp hc with hc | hc
      · exact isDigit_of_mem_replicate hc
      · exact hdigit c hc
    · have he : e.toNat = 0 := by omega
      have hzeros : ['0'] ++ List.replicate (-((ds.length : Int) + e)).toNat '0' =
          List.replicate ((-((ds.length : Int) + e)).toNat + 1) '0' := rfl
      rw [digitsValue_eq, ← List.append_assoc, Nat.ofDigitChars_append, hzeros,
        Nat.ofDigitChars_replicate_zero, Nat.mul_zero, hvalue, he]
      exact (Nat.mul_one n).symm
    · simp only [List.length_append, List.length_replicate]
      omega
  · rename_i hpoint
    obtain ⟨rfl, rfl⟩ := Prod.mk.inj h
    refine ⟨?_, ?_, fun c hc => hdigit c (List.mem_of_mem_drop hc), ?_, ?_⟩
    · have htake : (ds.take ((ds.length : Int) + e).toNat).length ≠ 0 := by
        rw [List.length_take]
        omega
      exact List.append_ne_nil_of_left_ne_nil (List.length_pos_iff.mp (Nat.pos_of_ne_zero htake)) _
    · intro c hc
      rcases List.mem_append.mp hc with hc | hc
      · exact hdigit c (List.mem_of_mem_take hc)
      · exact isDigit_of_mem_replicate hc
    · rcases Int.le_total 0 e with he | he
      -- Without a fraction all digits come first, with one there are no zeros to add.
      · have hall : ds.length ≤ ((ds.length : Int) + e).toNat := by omega
        have hzeros : ((ds.length : Int) + e).toNat - ds.length = e.toNat := by omega
        rw [List.take_of_length_le hall, List.drop_of_length_le hall, hzeros, List.append_nil,
          digitsValue_eq, Nat.ofDigitChars_append, hvalue, Nat.ofDigitChars_replicate_zero]
        exact Nat.mul_comm _ _
      · have hzeros : ((ds.length : Int) + e).toNat - ds.length = 0 := by omega
        have hnone : e.toNat = 0 := by omega
        rw [hzeros, hnone, List.replicate_zero, List.append_nil, List.take_append_drop,
          digitsValue_eq, hvalue]
        exact (Nat.mul_one n).symm
    · simp only [List.length_drop]
      omega

/-- Digits with a point before the fraction are read as one number. -/
theorem readUnsigned?_digits {whole fraction : List Char} (negative : Bool)
    (hne : whole ≠ []) (hw : ∀ c ∈ whole, isDigit c) (hf : ∀ c ∈ fraction, isDigit c) :
    readUnsigned? negative (whole ++ if fraction.isEmpty then [] else '.' :: fraction) =
      some (⟨negative, digitsValue (whole ++ fraction), -(fraction.length : Int)⟩, []) := by
  have hempty : whole.isEmpty = false := by simpa using hne
  cases fraction with
  | nil =>
    simp [readUnsigned?, List.takeWhile_eq_self_iff.mpr hw, List.dropWhile_eq_nil_iff.mpr hw,
      hempty, readExponent]
  | cons c cs =>
    have htake := @Text.takeWhile_run isDigit whole ('.' :: c :: cs) hw (by simp; decide)
    have hdrop : (whole ++ '.' :: c :: cs).dropWhile isDigit = '.' :: c :: cs := by
      rw [List.dropWhile_append_of_pos hw]
      rfl
    simp [readUnsigned?, htake, hdrop, List.takeWhile_eq_self_iff.mpr hf,
      List.dropWhile_eq_nil_iff.mpr hf, hempty, readExponent]

theorem readSign_signText (negative : Bool) {cs : List Char} (h : ∀ c ∈ cs.head?, isDigit c) :
    readSign (signText negative ++ cs) = (negative, cs) := by
  cases negative with
  | true => rfl
  | false =>
    change readSign cs = (false, cs)
    unfold readSign
    split
    · exact absurd (h '-' rfl) (by decide)
    · exact absurd (h '+' rfl) (by decide)
    · rfl

/-- A sign, digits and a fraction are read as a decimal without an exponent. -/
theorem Decimal.read?_digits {whole fraction : List Char} (negative : Bool)
    (hne : whole ≠ []) (hw : ∀ c ∈ whole, isDigit c) (hf : ∀ c ∈ fraction, isDigit c) :
    Decimal.read? (signText negative ++ whole ++
        if fraction.isEmpty then [] else '.' :: fraction) =
      some ⟨negative, digitsValue (whole ++ fraction), -(fraction.length : Int)⟩ := by
  obtain ⟨c, cs, rfl⟩ := List.exists_cons_of_ne_nil hne
  rw [List.append_assoc, Decimal.read?, readSign_signText negative (by simpa using hw c (by simp))]
  simp only [readUnsigned?_digits negative hne hw hf]

/-- The plain places of a decimal are read as a decimal of the same sign that denotes the
same double. -/
theorem Decimal.read?_plain (d : Decimal) : ∃ d', Decimal.read? d.plain.toList = some d' ∧
    d'.negative = d.negative ∧ d'.magnitudeBits = d.magnitudeBits := by
  obtain ⟨negative, n, e⟩ := d
  rcases eq_or_ne n 0 with rfl | hn
  · refine ⟨⟨negative, 0, 0⟩, ?_, rfl, by simp [Decimal.magnitudeBits]⟩
    have hread := @Decimal.read?_digits ['0'] [] negative (by simp)
      (fun c hc => isDigit_of_mem_zero hc) (by simp)
    simpa [Decimal.plain, Decimal.places, digitsValue] using hread
  obtain ⟨⟨whole, fraction⟩, hpos⟩ :
      ∃ p, positional (Nat.toDigits 10 n) ((Nat.toDigits 10 n).length + e) = p := ⟨_, rfl⟩
  obtain ⟨hne, hw, hf, hvalue, hlen⟩ := positional_spec n e hpos
  refine ⟨⟨negative, n * tenTo e.toNat, -((-e).toNat : Int)⟩, ?_, rfl, ?_⟩
  · have hread := Decimal.read?_digits negative hne hw hf
    rw [hvalue, hlen] at hread
    simpa [Decimal.plain, Decimal.places, hn, hpos] using hread
  · have he : -((-e).toNat : Int) + (e.toNat : Int) = e := by omega
    rw [magnitudeBits_mul_tenTo, he]

theorem read?_special {x : Float} (h : parts? x = none) : read? (specialText x) = some x := by
  rcases special_of_parts?_eq_none h with rfl | rfl | rfl <;> decide +kernel

/-- The text of a double in plain places denotes the double. -/
theorem read?_plain (x : Float) : read? (plain x) = some x := by
  unfold plain
  split
  · rename_i d hd
    obtain ⟨d', hread, hneg, hbits⟩ := Decimal.read?_plain d
    have hfloat : d'.toFloat = d.toFloat := by rw [Decimal.toFloat, hneg, hbits, Decimal.toFloat]
    simp only [read?, hread, hfloat, toFloat_of_shortest? hd]
  · rename_i hd
    exact read?_special (Option.map_eq_none_iff.mp hd)

end Tabular.Number

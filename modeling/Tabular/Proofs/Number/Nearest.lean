import Tabular.Proofs.Number.Value

/-!
# The nearest double

`nearestTo` rounds a number to a double, ties to even. It counts the number in units of its own
(`unitOf`) and rounds that count to a whole number (`IsRounded`), so that no finite double is nearer
(`isNearest_nearestTo`) and a number that a double stands for is kept (`nearestTo_exact`).
-/
namespace Tabular.Number

/-! ## Whole numbers -/

/-- A whole number is as near to a number as any other is, and even if another is as near. -/
structure IsRounded (n : ℕ) (r : ℚ) : Prop where
  near : |(n : ℚ) - r| ≤ 1 / 2
  even : |(n : ℚ) - r| = 1 / 2 → n % 2 = 0

section
variable {n m : ℕ} {r t : ℚ}

/-- Rounding keeps the order. -/
theorem IsRounded.mono (h : IsRounded n r) (h' : IsRounded m t) (hle : r ≤ t) : n ≤ m := by
  by_contra hlt
  have hgap : (m : ℚ) + 1 ≤ n := by exact_mod_cast Nat.not_le.mp hlt
  obtain ⟨-, hn⟩ := abs_le.mp h.near
  obtain ⟨hm, -⟩ := abs_le.mp h'.near
  -- Both are half away from a number between them, so they are neighbours and both even.
  have hn' : (n : ℚ) - r = 1 / 2 := by linarith
  have hm' : (m : ℚ) - t = -(1 / 2) := by linarith
  have heven := h.even (by rw [hn']; norm_num)
  have heven' := h'.even (by rw [hm']; norm_num)
  have hnext : n = m + 1 := by exact_mod_cast (by linarith : (n : ℚ) = m + 1)
  omega

theorem IsRounded.unique (h : IsRounded n r) (h' : IsRounded m r) : n = m :=
  Nat.le_antisymm (h.mono h' le_rfl) (h'.mono h le_rfl)

theorem isRounded_self (n : ℕ) : IsRounded n n where
  near := by norm_num
  even h := by norm_num at h

/-- No whole number is nearer, and one that is as near shows that this one is even. -/
theorem IsRounded.abs_le (h : IsRounded n r) (k : ℤ) : |(n : ℚ) - r| ≤ |(k : ℚ) - r| ∧
    (|(n : ℚ) - r| = |(k : ℚ) - r| → k = n ∨ n % 2 = 0) := by
  by_cases hk : k = n
  · subst hk
    exact ⟨le_rfl, fun _ => .inl rfl⟩
  have hgap : (1 : ℚ) ≤ |(k : ℚ) - n| := by
    have hone : 1 ≤ |k - (n : ℤ)| := Int.one_le_abs (sub_ne_zero.mpr hk)
    exact_mod_cast hone
  have htriangle : |(k : ℚ) - n| ≤ |(k : ℚ) - r| + |(n : ℚ) - r| := by
    rw [abs_sub_comm (n : ℚ) r]
    exact abs_sub_le (k : ℚ) r n
  have hnear := h.near
  refine ⟨by linarith, fun heq => .inr (h.even ?_)⟩
  linarith

/-- Nor is what lies on the far side of a whole number. -/
theorem IsRounded.abs_lt {z : ℚ} (h : IsRounded n r) (hz : z < m) (hm : (m : ℚ) ≤ r) :
    |(n : ℚ) - r| < |z - r| := by
  calc |(n : ℚ) - r| ≤ |((m : ℤ) : ℚ) - r| := (h.abs_le m).1
    _ = r - m := by rw [Int.cast_natCast, abs_sub_comm, abs_of_nonneg (sub_nonneg.mpr hm)]
    _ < r - z := sub_lt_sub_left hz r
    _ = |z - r| := by rw [abs_sub_comm, abs_of_nonneg (by linarith)]

theorem isRounded_down {x : ℚ} (hlow : 0 ≤ x) (hhigh : x ≤ 1 / 2) (heven : x = 1 / 2 → n % 2 = 0) :
    IsRounded n (n + x) := by
  have hdistance : |(n : ℚ) - (n + x)| = x := by
    rw [sub_add_cancel_left, abs_neg, abs_of_nonneg hlow]
  exact ⟨hdistance.trans_le hhigh, fun h => heven (hdistance.symm.trans h)⟩

theorem isRounded_up {x : ℚ} (hlow : 1 / 2 ≤ x) (hhigh : x ≤ 1)
    (heven : x = 1 / 2 → (n + 1) % 2 = 0) : IsRounded (n + 1) (n + x) := by
  have hdistance : |((n + 1 : ℕ) : ℚ) - (n + x)| = 1 - x := by
    rw [Nat.cast_add_one, add_sub_add_left_eq_sub, abs_of_nonneg (sub_nonneg.mpr hhigh)]
  exact ⟨by linarith, fun h => heven (by linarith)⟩

theorem isRounded_roundEven {num den : ℕ} (hden : 0 < den) :
    IsRounded (roundEven num den) ((num : ℚ) / den) := by
  have hd : (0 : ℚ) < den := by exact_mod_cast hden
  have hvalue : (num : ℚ) / den = (num / den : ℕ) + (num % den : ℕ) / den := by
    rw [div_eq_iff (ne_of_gt hd), add_mul, div_mul_cancel₀ _ (ne_of_gt hd)]
    exact_mod_cast (Nat.div_add_mod' num den).symm
  have hnonneg : (0 : ℚ) ≤ (num % den : ℕ) / den := by positivity
  have hlt : ((num % den : ℕ) : ℚ) / den < 1 := by
    rw [div_lt_one hd]
    exact_mod_cast Nat.mod_lt num hden
  have hhalf : (1 / 2 : ℚ) < (num % den : ℕ) / den ↔ den < 2 * (num % den) := by
    rw [lt_div_iff₀ hd, div_mul_eq_mul_div, one_mul, div_lt_iff₀ two_pos, mul_comm _ (2 : ℚ)]
    exact_mod_cast Iff.rfl
  have htie : ((num % den : ℕ) : ℚ) / den = 1 / 2 ↔ 2 * (num % den) = den := by
    rw [div_eq_iff (ne_of_gt hd), div_mul_eq_mul_div, one_mul, eq_div_iff two_ne_zero,
      mul_comm _ (2 : ℚ)]
    exact_mod_cast Iff.rfl
  rw [hvalue, roundEven]
  split
  · rename_i hup
    refine isRounded_up ?_ (le_of_lt hlt) fun h => ?_
    · exact hup.elim (fun h => le_of_lt (hhalf.mpr h)) fun h => le_of_eq (htie.mpr h.1).symm
    · have heq := htie.mp h
      omega
  · rename_i hdown
    obtain ⟨hle, heven⟩ := not_or.mp hdown
    refine isRounded_down hnonneg (not_lt.mp (mt hhalf.mp hle)) fun h => ?_
    have heq := htie.mp h
    omega

end

/-! ## Units -/

/-- The power of two in which the double nearest to a positive number has 53 bits, or the least
one that a double has. -/
def unitOf (q : ℚ) : ℤ := max (Int.log 2 q - 52) (-1074)

section
variable {q : ℚ} {u : ℤ}

theorem neg_le_unitOf (q : ℚ) : -1074 ≤ unitOf q := le_max_right _ _

/-- A number has at most 53 bits before its unit, and no fewer unless the unit is the least. -/
theorem unitOf_bounds (hq : 0 < q) :
    q / 2 ^ unitOf q < 2 ^ 53 ∧ (2 ^ 52 ≤ q / 2 ^ unitOf q ∨ unitOf q = -1074) := by
  have hpow : (0 : ℚ) < 2 ^ unitOf q := zpow_pos two_pos _
  constructor
  · rw [div_lt_iff₀ hpow, ← zpow_natCast, ← zpow_add₀ two_ne_zero]
    refine (Int.lt_zpow_iff_log_lt (b := 2) (by decide) hq).mpr ?_
    rw [unitOf]
    push_cast
    omega
  · rw [le_div_iff₀ hpow, ← zpow_natCast, ← zpow_add₀ two_ne_zero]
    refine (le_total (Int.log 2 q - 52) (-1074)).symm.imp (fun h => ?_) fun h => max_eq_right h
    refine (Int.zpow_le_iff_le_log (b := 2) (by decide) hq).mpr ?_
    rw [unitOf]
    push_cast
    omega

theorem unitOf_eq (hq : 0 < q) (hu : -1074 ≤ u) (hlt : q / 2 ^ u < 2 ^ 53)
    (hlead : 2 ^ 52 ≤ q / 2 ^ u ∨ u = -1074) : unitOf q = u := by
  have hpow : (0 : ℚ) < 2 ^ u := zpow_pos two_pos _
  rw [div_lt_iff₀ hpow, ← zpow_natCast, ← zpow_add₀ two_ne_zero] at hlt
  rw [le_div_iff₀ hpow, ← zpow_natCast, ← zpow_add₀ two_ne_zero] at hlead
  have hlow := (Int.lt_zpow_iff_log_lt (b := 2) (by decide) hq).mp hlt
  have hhigh := hlead.imp_left (Int.zpow_le_iff_le_log (b := 2) (by decide) hq).mp
  rw [unitOf]
  push_cast at hlow hhigh
  omega

theorem unitOf_le (hq : 0 < q) (hu : -1074 ≤ u) (hlt : q < 2 ^ (u + 53)) : unitOf q ≤ u := by
  have hlog := (Int.lt_zpow_iff_log_lt (b := 2) (by decide) hq).mp hlt
  rw [unitOf]
  omega

/-- The bits of the double nearest to a quotient count units. A carry to 54 bits moves to the next
power of two by itself. -/
theorem nearestBits_of_rounded {num den n : ℕ} (hnum : 0 < num) (hden : 0 < den)
    (h : IsRounded n ((num : ℚ) / den / 2 ^ unitOf (num / den))) : nearestBits num den =
      min ((unitOf ((num : ℚ) / den) + 1074).toNat * 2 ^ 52 + n) infinityBits := by
  have hunit : unitExponent num den = unitOf ((num : ℚ) / den) := unitExponent_eq hnum hden
  generalize unitOf ((num : ℚ) / den) = u at *
  have hquotient : ((num * twoTo (-u).toNat : ℕ) : ℚ) / (den * twoTo u.toNat : ℕ) =
      num / den / 2 ^ u := by
    obtain ⟨k, rfl | rfl⟩ := u.eq_nat_or_neg
    · simp [twoTo, div_div]
    · simp [twoTo, div_mul_eq_mul_div]
  have hrounded : roundEven (num * twoTo (-u).toNat) (den * twoTo u.toNat) = n := by
    refine IsRounded.unique ?_ h
    rw [← hquotient]
    exact isRounded_roundEven (Nat.mul_pos hden (twoTo_pos _))
  simp only [nearestBits, if_neg (Nat.ne_of_gt hnum), hunit, hrounded]
  rfl

end

/-! ## Signs -/

/-- A magnitude with a sign. -/
def withSign (negative : Bool) (q : ℚ) : ℚ := if negative then -q else q

section
variable {x : Float} {q : ℚ}

theorem withSign_zero (negative : Bool) : withSign negative 0 = 0 := by
  cases negative
  · rfl
  · exact neg_zero

theorem withSign_withSign (a b : Bool) (q : ℚ) :
    withSign a (withSign b q) = withSign (a ^^ b) q := by
  cases a
  · rw [Bool.false_xor]
    rfl
  · cases b
    · rfl
    · exact neg_neg q

theorem abs_withSign (negative : Bool) (q : ℚ) : |withSign negative q| = |q| := by
  cases negative
  · rfl
  · exact abs_neg q

theorem withSign_sub (negative : Bool) (q r : ℚ) :
    withSign negative (q - r) = withSign negative q - withSign negative r := by
  cases negative
  · rfl
  · exact neg_sub' q r

theorem exists_withSign (hq : q ≠ 0) : ∃ negative r, 0 < r ∧ q = withSign negative r := by
  rcases lt_or_gt_of_ne hq with h | h
  · exact ⟨true, -q, neg_pos.mpr h, (neg_neg q).symm⟩
  · exact ⟨false, q, h, rfl⟩

/-! ## Doubles and their bits -/

theorem exact_of_parts {p : Parts} (h : parts? x = some p) :
    Number.exact x = withSign p.negative (p.significand * 2 ^ p.exponent) := by
  simp only [Number.exact, h, withSign, ← p.num_div_den]
  split
  · exact neg_div (p.den : ℚ) p.num
  · rfl

theorem abs_exact_of_parts {p : Parts} (h : parts? x = some p) :
    |Number.exact x| = p.num / p.den := by
  rw [exact_of_parts h, abs_withSign, abs_of_nonneg (by positivity), p.num_div_den]

theorem isFinite_of_parts {p : Parts} (h : parts? x = some p) : x.isFinite := by
  have hunpack : x.toModel.unpack = _ := unpack_of_parts h
  show x.toModel.unpack.isFinite = true
  rw [hunpack]
  split <;> rfl

/-- A bit pattern below that of infinity has parts, with either sign. -/
theorem parts?_ofMagnitude {bits : Nat} (h : bits < infinityBits) (negative : Bool) :
    ∃ p, parts? (ofMagnitude negative bits) = some p ∧ p.negative = negative ∧
      Parts.ofBits? (if negative then bits + 2 ^ 63 else bits) = some p := by
  have hinfinity : infinityBits = 2047 * 2 ^ 52 := rfl
  have hbits := toBits_ofMagnitude (Nat.le_of_lt h) negative
  obtain ⟨n, hn⟩ : ∃ n, n = if negative then bits + 2 ^ 63 else bits := ⟨_, rfl⟩
  have hfield : n / 2 ^ 52 % 2 ^ 11 ≠ 2047 := by
    rw [hn]
    split <;> omega
  rw [parts?, hbits, ← hn]
  obtain ⟨p, hp⟩ : ∃ p, Parts.ofBits? n = some p := by
    refine Option.ne_none_iff_exists'.mp fun hnone => ?_
    simp only [Parts.ofBits?] at hnone
    split at hnone
    · rename_i hones
      exact hfield hones
    · split at hnone <;> cases hnone
  refine ⟨p, hp, ?_, hp⟩
  rw [Parts.negative_eq hp, hn]
  cases negative with
  | false => exact decide_eq_false (by simp only [Bool.false_eq_true, if_false]; omega)
  | true => exact decide_eq_true (by simp only [if_true]; omega)

theorem isFinite_ofMagnitude {bits : Nat} (h : bits < infinityBits) (negative : Bool) :
    (ofMagnitude negative bits).isFinite := by
  obtain ⟨p, hp, -, -⟩ := parts?_ofMagnitude h negative
  exact isFinite_of_parts hp

/-- The number that a bit pattern of at most 53 bits, counted in a unit, stands for. With 54 bits it
is the least of the next power of two. -/
theorem exact_ofMagnitude {u : ℤ} {n : ℕ} (hu : -1074 ≤ u) (hn : n ≤ 2 ^ 53)
    (hlead : 2 ^ 52 ≤ n ∨ u = -1074) (h : (u + 1074).toNat * 2 ^ 52 + n < infinityBits)
    (negative : Bool) :
    Number.exact (ofMagnitude negative ((u + 1074).toNat * 2 ^ 52 + n)) =
      withSign negative (n * 2 ^ u) := by
  have hinfinity : infinityBits = 2047 * 2 ^ 52 := rfl
  obtain ⟨p, hp, hnegative, hbits⟩ := parts?_ofMagnitude h negative
  obtain ⟨hsignificand, hlow, -, hcanonical, hmagnitude⟩ := Parts.ofBits?_eq_some hbits
  have hsum : (u + 1074).toNat * 2 ^ 52 + n =
      (p.exponent + 1074).toNat * 2 ^ 52 + p.significand := by
    rw [← hmagnitude]
    split <;> omega
  rw [exact_of_parts hp, hnegative]
  congr 1
  rcases Nat.lt_or_eq_of_le hn with hlt | rfl
  · obtain ⟨hexponent, hsame⟩ : p.exponent = u ∧ p.significand = n := by omega
    rw [hexponent, hsame]
  · obtain ⟨hexponent, hsame⟩ : p.exponent = u + 1 ∧ p.significand = 2 ^ 52 := by omega
    rw [hexponent, hsame, zpow_add_one₀ two_ne_zero]
    push_cast
    ring

end

/-! ## The nearest double -/

/-- The double nearest to a number, ties to even, and past the largest double an infinity. -/
def nearestTo (q : ℚ) : Float := nearest (decide (q < 0)) q.num.natAbs q.den

theorem nearest_eq_nearestTo {num den : ℕ} (hnum : 0 < num) (hden : 0 < den) (negative : Bool) :
    nearest negative num den = nearestTo (withSign negative (num / den)) := by
  have hd : (0 : ℚ) < den := by exact_mod_cast hden
  have hq : (0 : ℚ) < num / den := div_pos (by exact_mod_cast hnum) hd
  have hsign : decide (withSign negative ((num : ℚ) / den) < 0) = negative := by
    cases negative with
    | false => exact decide_eq_false (not_lt.mpr (le_of_lt hq))
    | true => exact decide_eq_true (neg_lt_zero.mpr hq)
  have hparts : (withSign negative ((num : ℚ) / den)).num.natAbs = ((num : ℚ) / den).num.natAbs ∧
      (withSign negative ((num : ℚ) / den)).den = ((num : ℚ) / den).den := by
    cases negative with
    | false => exact ⟨rfl, rfl⟩
    | true => exact ⟨Int.natAbs_neg _, rfl⟩
  have hcross : num * ((num : ℚ) / den).den = ((num : ℚ) / den).num.natAbs * den := by
    have hnatAbs : ((((num : ℚ) / den).num.natAbs : ℕ) : ℚ) = ((num : ℚ) / den).num := by
      rw [Nat.cast_natAbs, abs_of_pos (Rat.num_pos.mpr hq)]
    have hself := Rat.num_div_den ((num : ℚ) / den)
    rw [← hnatAbs, div_eq_div_iff (by exact_mod_cast Rat.den_ne_zero _) (ne_of_gt hd)] at hself
    exact_mod_cast hself.symm
  rw [nearestTo, hsign, hparts.1, hparts.2, nearest, nearest,
    nearestBits_congr hden (Rat.den_pos _) hcross]

theorem nearestTo_zero : nearestTo 0 = 0.0 := by decide +kernel

section
variable {q : ℚ} {n : ℕ}

theorem nearestTo_of_rounded (hq : 0 < q) (h : IsRounded n (q / 2 ^ unitOf q)) (negative : Bool) :
    nearestTo (withSign negative q) =
      ofMagnitude negative (min ((unitOf q + 1074).toNat * 2 ^ 52 + n) infinityBits) := by
  have hnum : 0 < q.num.natAbs := Int.natAbs_pos.mpr (Rat.num_ne_zero.mpr (ne_of_gt hq))
  have hself : (q.num.natAbs : ℚ) / q.den = q := by
    rw [Nat.cast_natAbs, abs_of_pos (Rat.num_pos.mpr hq)]
    exact Rat.num_div_den q
  have hbits := nearestBits_of_rounded (n := n) hnum (Rat.den_pos q) (by rwa [hself])
  have hnearest := nearest_eq_nearestTo hnum (Rat.den_pos q) negative
  rw [hself] at hbits hnearest
  rw [← hnearest, nearest, hbits]

theorem exists_isRounded (hq : 0 < q) : ∃ n, IsRounded n q := by
  have hself : (q.num.natAbs : ℚ) / q.den = q := by
    rw [Nat.cast_natAbs, abs_of_pos (Rat.num_pos.mpr hq)]
    exact Rat.num_div_den q
  exact ⟨_, hself ▸ isRounded_roundEven (Rat.den_pos q)⟩

/-- Rounding in the unit gives 53 bits too, or carries to the least number of 54. -/
theorem IsRounded.bounds (h : IsRounded n (q / 2 ^ unitOf q)) (hq : 0 < q) :
    n ≤ 2 ^ 53 ∧ (2 ^ 52 ≤ n ∨ unitOf q = -1074) := by
  obtain ⟨hlt, hlead⟩ := unitOf_bounds hq
  refine ⟨h.mono (isRounded_self _) ?_, hlead.imp_left fun hle => (isRounded_self _).mono h ?_⟩
  · exact_mod_cast le_of_lt hlt
  · exact_mod_cast hle

/-- A number is rounded to a whole number of its units, unless that is too large. -/
theorem exact_nearestTo_of_rounded (hq : 0 < q) (h : IsRounded n (q / 2 ^ unitOf q))
    (hbits : (unitOf q + 1074).toNat * 2 ^ 52 + n < infinityBits) (negative : Bool) :
    (nearestTo (withSign negative q)).isFinite ∧
      Number.exact (nearestTo (withSign negative q)) = withSign negative (n * 2 ^ unitOf q) := by
  obtain ⟨hn, hlead⟩ := h.bounds hq
  rw [nearestTo_of_rounded hq h, min_eq_left (le_of_lt hbits)]
  exact ⟨isFinite_ofMagnitude hbits negative,
    exact_ofMagnitude (neg_le_unitOf q) hn hlead hbits negative⟩

/-- Only a number past `2 ^ 1023` can be rounded to an infinity. -/
theorem isFinite_nearestTo (h : |q| < 2 ^ (1023 : ℤ)) : (nearestTo q).isFinite := by
  rcases eq_or_ne q 0 with rfl | hq
  · rw [nearestTo_zero]
    exact isFinite_zero
  obtain ⟨negative, r, hr, rfl⟩ := exists_withSign hq
  rw [abs_withSign, abs_of_pos hr] at h
  obtain ⟨n, hn⟩ := exists_isRounded (div_pos hr (zpow_pos two_pos (unitOf r)))
  have hunit : unitOf r ≤ 970 := unitOf_le hr (by decide) h
  have hle := (hn.bounds hr).1
  have hinfinity : infinityBits = 2047 * 2 ^ 52 := rfl
  exact (exact_nearestTo_of_rounded hr hn (by omega) negative).1

theorem exists_rounded (hq : 0 < q) {negative : Bool}
    (h : (nearestTo (withSign negative q)).isFinite) : ∃ n, IsRounded n (q / 2 ^ unitOf q) ∧
      (unitOf q + 1074).toNat * 2 ^ 52 + n < infinityBits := by
  obtain ⟨n, hn⟩ := exists_isRounded (div_pos hq (zpow_pos two_pos (unitOf q)))
  have hbits : (unitOf q + 1074).toNat * 2 ^ 52 + n < infinityBits := by
    by_contra hge
    rw [nearestTo_of_rounded hq hn, min_eq_right (not_lt.mp hge)] at h
    cases negative with
    | false => exact absurd h (by decide +kernel)
    | true => exact absurd h (by decide +kernel)
  exact ⟨n, hn, hbits⟩

/-- A number of 53 bits is a double, unless it is too large. -/
theorem exact_nearestTo_scaled {k : ℕ} {e : ℤ} (hk : k < 2 ^ 53) (hlow : -1074 ≤ e)
    (hhigh : e ≤ 971) (negative : Bool) :
    (nearestTo (withSign negative (k * 2 ^ e))).isFinite ∧
      Number.exact (nearestTo (withSign negative (k * 2 ^ e))) = withSign negative (k * 2 ^ e) := by
  rcases Nat.eq_zero_or_pos k with rfl | hpos
  · rw [Nat.cast_zero, zero_mul, withSign_zero, nearestTo_zero]
    exact ⟨isFinite_zero, exact_zero⟩
  have hpow : (0 : ℚ) < 2 ^ e := zpow_pos two_pos e
  have hq : (0 : ℚ) < k * 2 ^ e := mul_pos (by exact_mod_cast hpos) hpow
  have hunit : unitOf ((k : ℚ) * 2 ^ e) ≤ e := by
    refine unitOf_le hq hlow ?_
    rw [add_comm, zpow_add₀ two_ne_zero]
    exact mul_lt_mul_of_pos_right (by exact_mod_cast hk) hpow
  have hlow' := neg_le_unitOf ((k : ℚ) * 2 ^ e)
  obtain ⟨hlt, -⟩ := unitOf_bounds hq
  generalize hu : unitOf ((k : ℚ) * 2 ^ e) = u at *
  -- A shift to the unit has nothing to round.
  obtain ⟨j, rfl⟩ : ∃ j : ℕ, e = u + j := ⟨(e - u).toNat, by omega⟩
  have hshift : (k : ℚ) * 2 ^ (u + (j : ℤ)) = (k * 2 ^ j : ℕ) * 2 ^ u := by
    rw [zpow_add₀ two_ne_zero, zpow_natCast]
    push_cast
    ring
  have hwhole : (k : ℚ) * 2 ^ (u + (j : ℤ)) / 2 ^ u = (k * 2 ^ j : ℕ) := by
    rw [hshift, mul_div_cancel_right₀ _ (zpow_ne_zero u two_ne_zero)]
  have hbits : k * 2 ^ j < 2 ^ 53 := by
    rw [hwhole] at hlt
    exact_mod_cast hlt
  have hinfinity : infinityBits = 2047 * 2 ^ 52 := rfl
  have hroom : (u + 1074).toNat * 2 ^ 52 + k * 2 ^ j < infinityBits := by omega
  have h := @exact_nearestTo_of_rounded _ (k * 2 ^ j) hq
  rw [hu, hwhole, ← hshift] at h
  exact h (isRounded_self _) hroom negative

end

/-! ## Finite doubles -/

section
variable {x : Float} {q : ℚ}

/-- A double is nearest to the number it stands for. -/
theorem exact_nearestTo_exact (h : x.isFinite) : (nearestTo (Number.exact x)).isFinite ∧
    Number.exact (nearestTo (Number.exact x)) = Number.exact x := by
  obtain ⟨p, hp⟩ := exists_parts_of_isFinite h
  obtain ⟨hsignificand, hlow, hhigh, -, -⟩ := Parts.ofBits?_eq_some hp
  rw [exact_of_parts hp]
  exact exact_nearestTo_scaled hsignificand hlow hhigh p.negative

/-- Only the negative zero is not what its number is rounded to. -/
theorem nearestTo_exact (h : x.isFinite) (hx : ¬ IsNegativeZero x) :
    nearestTo (Number.exact x) = x := by
  obtain ⟨hfinite, hexact⟩ := exact_nearestTo_exact h
  refine eq_of_exact_eq hfinite h (fun hzero => ?_) hx hexact
  rw [exact_of_isNegativeZero hzero] at hexact
  rw [← hexact, nearestTo_zero] at hzero
  exact not_isNegativeZero_zero hzero

theorem isWhole_iff (hx : x.isFinite) :
    isWhole x ↔ (⌊|Number.exact x|⌋₊ : ℚ) = |Number.exact x| := by
  obtain ⟨p, hp⟩ := exists_parts_of_isFinite hx
  have hden : (p.den : ℚ) ≠ 0 := by exact_mod_cast Nat.ne_of_gt p.den_pos
  rw [abs_exact_of_parts hp, Nat.floor_div_eq_div, isWhole, hp]
  show (p.num % p.den == 0) = true ↔ _
  rw [beq_iff_eq, eq_div_iff hden]
  have hsum := Nat.div_add_mod' p.num p.den
  constructor
  · intro h
    rw [h, add_zero] at hsum
    exact_mod_cast hsum
  · intro h
    have h' : p.num / p.den * p.den = p.num := by exact_mod_cast h
    omega

/-- A double is nearest to a number: no finite double is nearer, and if another one is as near, the
significand is even. -/
structure IsNearest (x : Float) (q : ℚ) : Prop where
  isFinite : x.isFinite
  near : ∀ y : Float, y.isFinite → |Number.exact x - q| ≤ |Number.exact y - q|
  even : ∀ y : Float, y.isFinite → |Number.exact x - q| = |Number.exact y - q| →
    Number.exact y = Number.exact x ∨ ∀ p ∈ parts? x, p.significand % 2 = 0

theorem IsNearest.abs_sub_le (h : IsNearest x q) : |Number.exact x - q| ≤ |q| := by
  have hzero := h.near 0.0 isFinite_zero
  rwa [exact_zero, zero_sub, abs_neg] at hzero

/-- Rounding does not turn a sign round. -/
theorem IsNearest.nonneg (h : IsNearest x q) (hq : 0 ≤ q) : 0 ≤ Number.exact x := by
  have hlow := (abs_le.mp h.abs_sub_le).1
  rw [abs_of_nonneg hq] at hlow
  linarith

theorem IsNearest.nonpos (h : IsNearest x q) (hq : q ≤ 0) : Number.exact x ≤ 0 := by
  have hhigh := (abs_le.mp h.abs_sub_le).2
  rw [abs_of_nonpos hq] at hhigh
  linarith

/-- In units of a number, a double is whole, or it is below all that have 53 bits there. -/
theorem parts_div_unitOf {p : Parts} (hp : parts? x = some p) (hq : 0 < q) (negative : Bool) :
    (∃ k : ℤ, withSign negative (p.significand * 2 ^ p.exponent) / 2 ^ unitOf q = k) ∨
      (withSign negative (p.significand * 2 ^ p.exponent) / 2 ^ unitOf q < (2 ^ 52 : ℕ) ∧
        ((2 ^ 52 : ℕ) : ℚ) ≤ q / 2 ^ unitOf q) := by
  obtain ⟨hsignificand, hlow, -, -, -⟩ := Parts.ofBits?_eq_some hp
  obtain ⟨-, hlead⟩ := unitOf_bounds hq
  have hlow' := neg_le_unitOf q
  generalize unitOf q = u at *
  have hpow : (0 : ℚ) < 2 ^ u := zpow_pos two_pos u
  rcases le_or_gt u p.exponent with hu | hu
  · left
    obtain ⟨j, hj⟩ : ∃ j : ℕ, p.exponent = u + j := ⟨(p.exponent - u).toNat, by omega⟩
    have hshift : (p.significand : ℚ) * 2 ^ p.exponent / 2 ^ u = (p.significand * 2 ^ j : ℕ) := by
      rw [hj, zpow_add₀ two_ne_zero, zpow_natCast, div_eq_iff (ne_of_gt hpow)]
      push_cast
      ring
    cases negative with
    | false => exact ⟨(p.significand * 2 ^ j : ℕ), hshift⟩
    | true =>
      refine ⟨-(p.significand * 2 ^ j : ℕ), (neg_div _ _).trans ?_⟩
      rw [hshift, Int.cast_neg, Int.cast_natCast]
  · right
    rw [Nat.cast_pow, Nat.cast_ofNat]
    refine ⟨?_, hlead.resolve_right (by omega)⟩
    rw [div_lt_iff₀ hpow]
    calc withSign negative ((p.significand : ℚ) * 2 ^ p.exponent)
        ≤ |withSign negative ((p.significand : ℚ) * 2 ^ p.exponent)| := le_abs_self _
      _ = p.significand * 2 ^ p.exponent := by
          rw [abs_withSign, abs_of_nonneg (by positivity)]
      _ < 2 ^ 53 * 2 ^ p.exponent :=
          mul_lt_mul_of_pos_right (by exact_mod_cast hsignificand) (zpow_pos two_pos _)
      _ = 2 ^ 52 * 2 ^ (p.exponent + 1) := by rw [zpow_add_one₀ two_ne_zero]; ring
      _ ≤ 2 ^ 52 * 2 ^ u := mul_le_mul_of_nonneg_left
          (zpow_le_zpow_right₀ one_le_two (by omega)) (by positivity)

/-- The significand of what a number is rounded to is even if the count of units is. -/
theorem even_significand {n : ℕ} {p : Parts} {negative : Bool} (hq : 0 < q)
    (h : IsRounded n (q / 2 ^ unitOf q))
    (hbits : (unitOf q + 1074).toNat * 2 ^ 52 + n < infinityBits)
    (hp : parts? (nearestTo (withSign negative q)) = some p) : p.significand % 2 = n % 2 := by
  rw [nearestTo_of_rounded hq h, min_eq_left (le_of_lt hbits)] at hp
  obtain ⟨p', hp', -, hparts⟩ := parts?_ofMagnitude hbits negative
  obtain rfl : p' = p := Option.some.inj (hp'.symm.trans hp)
  obtain ⟨-, -, -, -, hmagnitude⟩ := Parts.ofBits?_eq_some hparts
  have hinfinity : infinityBits = 2047 * 2 ^ 52 := rfl
  split at hmagnitude <;> omega

/-- Rounding a number gives the double nearest to it, if that is finite. -/
theorem isNearest_nearestTo (h : (nearestTo q).isFinite) : IsNearest (nearestTo q) q := by
  rcases eq_or_ne q 0 with rfl | hq
  · rw [nearestTo_zero]
    refine ⟨isFinite_zero, fun y _ => ?_, fun y _ heq => .inl ?_⟩
    · rw [exact_zero, sub_zero, abs_zero]
      exact abs_nonneg _
    · rw [exact_zero, sub_zero, sub_zero, abs_zero] at heq
      rw [exact_zero, abs_eq_zero.mp heq.symm]
  obtain ⟨negative, r, hr, rfl⟩ := exists_withSign hq
  obtain ⟨n, hn, hbits⟩ := exists_rounded hr h
  obtain ⟨-, hexact⟩ := exact_nearestTo_of_rounded hr hn hbits negative
  have hpow : (0 : ℚ) < 2 ^ unitOf r := zpow_pos two_pos _
  -- Distances are measured in units and on the side of the number.
  have hdistance : ∀ z : ℚ, |withSign negative (z * 2 ^ unitOf r) - withSign negative r| =
      |z - r / 2 ^ unitOf r| * 2 ^ unitOf r := by
    intro z
    rw [← withSign_sub, abs_withSign, ← abs_of_pos hpow, ← abs_mul, abs_of_pos hpow, sub_mul,
      div_mul_cancel₀ _ (ne_of_gt hpow)]
  have hother : ∀ y : Float, y.isFinite → ∃ z : ℚ,
      Number.exact y = withSign negative (z * 2 ^ unitOf r) ∧
        ((∃ k : ℤ, z = k) ∨ (z < (2 ^ 52 : ℕ) ∧ ((2 ^ 52 : ℕ) : ℚ) ≤ r / 2 ^ unitOf r)) := by
    intro y hy
    obtain ⟨p, hp⟩ := exists_parts_of_isFinite hy
    refine ⟨_, ?_, parts_div_unitOf hp hr (negative ^^ p.negative)⟩
    rw [div_mul_cancel₀ _ (ne_of_gt hpow), exact_of_parts hp, withSign_withSign,
      ← Bool.xor_assoc, Bool.xor_self, Bool.false_xor]
  refine ⟨h, fun y hy => ?_, fun y hy heq => ?_⟩
  · obtain ⟨z, hz, hcases⟩ := hother y hy
    rw [hexact, hz, hdistance, hdistance]
    refine mul_le_mul_of_nonneg_right ?_ (le_of_lt hpow)
    rcases hcases with ⟨k, rfl⟩ | ⟨hlt, hle⟩
    · exact (hn.abs_le k).1
    · exact le_of_lt (hn.abs_lt hlt hle)
  · obtain ⟨z, hz, hcases⟩ := hother y hy
    rw [hexact, hz, hdistance, hdistance, mul_left_inj' (ne_of_gt hpow)] at heq
    rcases hcases with ⟨k, rfl⟩ | ⟨hlt, hle⟩
    · refine ((hn.abs_le k).2 heq).imp (fun hk => ?_) fun heven p hp => ?_
      · rw [hz, hexact, hk]
        rfl
      · rw [even_significand hr hn hbits hp, heven]
    · exact absurd heq (ne_of_lt (hn.abs_lt hlt hle))

end
end Tabular.Number

import Tabular.Proofs.Number.Overflow
import Tabular.Proofs.Number.ReadBack
import Tabular.Proofs.Text.Trimming

/-!
# Decimal literals

`Spells` is the grammar of decimal literals: a sign, digits with at most one point among them, and
a power of ten. The reader takes exactly the literals (`Decimal.read?_eq_some_iff`), and what it
makes of one is the double nearest to the number (`Decimal.isResult_toFloat`), also where it does
not look at the digits because there are too many places before the point or behind it.
-/
namespace Tabular.Number

/-! ## Grammar -/

/-- An optional sign. -/
inductive Signs : List Char → Bool → Prop
  | none : Signs [] false
  | plus : Signs ['+'] false
  | minus : Signs ['-'] true

/-- Digits, at least one, with at most one point: their number without the point, and how many of
them stand behind it. -/
inductive Digits : List Char → Nat → Nat → Prop
  | whole {ds} : ds ≠ [] → (∀ c ∈ ds, isDigit c) → Digits ds (digitsValue ds) 0
  | point {ds fs} : ds ++ fs ≠ [] → (∀ c ∈ ds ++ fs, isDigit c) →
      Digits (ds ++ '.' :: fs) (digitsValue (ds ++ fs)) fs.length

/-- An optional power of ten. -/
inductive Power : List Char → Int → Prop
  | none : Power [] 0
  | some {e s negative ds} : e = 'e' ∨ e = 'E' → Signs s negative → ds ≠ [] →
      (∀ c ∈ ds, isDigit c) →
      Power (e :: (s ++ ds)) (if negative then -(digitsValue ds : Int) else digitsValue ds)

/-- A literal and the decimal number that it is. -/
inductive Spells : List Char → Decimal → Prop
  | literal {s m p negative n places exponent} : Signs s negative → Digits m n places →
      Power p exponent → Spells (s ++ (m ++ p)) ⟨negative, n, exponent - places⟩

section
variable {s m p rest : List Char} {negative : Bool} {n places : Nat} {exponent : Int}
  {cs : List Char} {d : Decimal}

theorem Signs.mem (h : Signs s negative) {c : Char} (hc : c ∈ s) : c = '+' ∨ c = '-' := by
  cases h with
  | none => cases hc
  | plus => exact .inl (List.mem_singleton.mp hc)
  | minus => exact .inr (List.mem_singleton.mp hc)

theorem Digits.mem (h : Digits m n places) {c : Char} (hc : c ∈ m) : isDigit c ∨ c = '.' := by
  cases h with
  | whole _ hdigits => exact .inl (hdigits c hc)
  | point _ hdigits =>
    obtain hc | hc := List.mem_append.mp hc
    · exact .inl (hdigits c (List.mem_append_left _ hc))
    · obtain rfl | hc := List.mem_cons.mp hc
      · exact .inr rfl
      · exact .inl (hdigits c (List.mem_append_right _ hc))

theorem Power.mem (h : Power p exponent) {c : Char} (hc : c ∈ p) :
    isDigit c ∨ c ∈ ['+', '-', 'e', 'E'] := by
  cases h with
  | none => cases hc
  | some he hsign _ hdigits =>
    obtain rfl | hc := List.mem_cons.mp hc
    · right
      obtain rfl | rfl := he
      · simp
      · simp
    · obtain hc | hc := List.mem_append.mp hc
      · right
        obtain rfl | rfl := hsign.mem hc
        · simp
        · simp
      · exact .inl (hdigits c hc)

/-- Nothing but digits, signs, points and the letter of a power occurs in a literal. -/
theorem Spells.mem (h : Spells cs d) {c : Char} (hc : c ∈ cs) :
    isDigit c ∨ c ∈ ['+', '-', '.', 'e', 'E'] := by
  cases h with
  | literal hsign hdigits hpower =>
    obtain hc | hc := List.mem_append.mp hc
    · right
      obtain rfl | rfl := hsign.mem hc
      · simp
      · simp
    · obtain hc | hc := List.mem_append.mp hc
      · refine (hdigits.mem hc).imp_right fun hc => ?_
        rw [hc]
        simp
      · refine (hpower.mem hc).imp_right fun hc => ?_
        simp only [List.mem_cons, List.not_mem_nil, or_false] at hc ⊢
        tauto

/-! ## The reader takes literals -/

theorem Signs.readSign (h : Signs s negative) (hrest : ∀ c ∈ rest.head?, c ≠ '-' ∧ c ≠ '+') :
    readSign (s ++ rest) = (negative, rest) := by
  cases h with
  | plus => rfl
  | minus => rfl
  | none =>
    show readSign rest = _
    unfold Number.readSign
    split
    · exact absurd rfl (hrest '-' rfl).1
    · exact absurd rfl (hrest '+' rfl).2
    · rfl

theorem Power.readExponent (h : Power p exponent) : readExponent p = (exponent, []) := by
  cases h with
  | none => rfl
  | @some e s negative ds he hsign hne hdigits =>
    have hhead : ∀ c ∈ ds.head?, c ≠ '-' ∧ c ≠ '+' := by
      intro c hc
      have hc := hdigits c (List.mem_of_mem_head? hc)
      exact ⟨ne_of_isDigit hc rfl, ne_of_isDigit hc rfl⟩
    have hempty : ds.isEmpty = false := List.isEmpty_eq_false_iff.mpr hne
    simp only [Number.readExponent, if_pos he, hsign.readSign hhead,
      List.takeWhile_eq_self_iff.mpr hdigits, List.dropWhile_eq_nil_iff.mpr hdigits, hempty,
      Bool.false_eq_true, if_false]

/-- A power of ten begins with its letter. -/
theorem Power.head (h : Power p exponent) : ∀ c ∈ p.head?, isDigit c = false ∧ c ≠ '.' := by
  cases h with
  | none => exact fun c hc => by cases hc
  | some he =>
    intro c hc
    obtain rfl := Option.some.inj hc
    obtain rfl | rfl := he
    · exact ⟨rfl, by simp⟩
    · exact ⟨rfl, by simp⟩

/-- A run of digits is taken off the front of what it does not continue. -/
theorem dropWhile_run {run after : List Char} (h : ∀ c ∈ run, isDigit c)
    (hafter : ∀ c ∈ after.head?, isDigit c = false) : (run ++ after).dropWhile isDigit = after := by
  rw [List.dropWhile_append_of_pos h, Text.dropWhile_eq_self hafter]

theorem readUnsigned?_whole (h : ∀ c ∈ (cs.dropWhile isDigit).head?, c ≠ '.') :
    readUnsigned? negative cs = if (cs.takeWhile isDigit).isEmpty then none else
      some (⟨negative, digitsValue (cs.takeWhile isDigit),
        (readExponent (cs.dropWhile isDigit)).1⟩, (readExponent (cs.dropWhile isDigit)).2) := by
  unfold Number.readUnsigned?
  generalize cs.dropWhile isDigit = after at *
  dsimp only
  split
  · exact absurd rfl (h '.' rfl)
  · simp

theorem readUnsigned?_point {after : List Char} (h : cs.dropWhile isDigit = '.' :: after) :
    readUnsigned? negative cs =
      if (cs.takeWhile isDigit).isEmpty && (after.takeWhile isDigit).isEmpty then none else
        some (⟨negative, digitsValue (cs.takeWhile isDigit ++ after.takeWhile isDigit),
          (readExponent (after.dropWhile isDigit)).1 - (after.takeWhile isDigit).length⟩,
          (readExponent (after.dropWhile isDigit)).2) := by
  unfold Number.readUnsigned?
  rw [h]
  rfl

theorem Digits.readUnsigned? (hm : Digits m n places) (hp : Power p exponent) (negative : Bool) :
    readUnsigned? negative (m ++ p) = some (⟨negative, n, exponent - places⟩, []) := by
  have hhead : ∀ c ∈ p.head?, isDigit c = false := fun c hc => (hp.head c hc).1
  cases hm with
  | whole hne hdigits =>
    have hempty : m.isEmpty = false := List.isEmpty_eq_false_iff.mpr hne
    have htake := Text.takeWhile_run hdigits hhead
    have hdrop := dropWhile_run hdigits hhead
    have hpoint : ∀ c ∈ ((m ++ p).dropWhile isDigit).head?, c ≠ '.' := by
      rw [hdrop]
      exact fun c hc => (hp.head c hc).2
    rw [readUnsigned?_whole hpoint, htake, hdrop, hp.readExponent, hempty, Nat.cast_zero, sub_zero]
    rfl
  | @point ds fs hne hdigits =>
    have hwhole : ∀ c ∈ ds, isDigit c := fun c hc => hdigits c (List.mem_append_left fs hc)
    have hfraction : ∀ c ∈ fs, isDigit c := fun c hc => hdigits c (List.mem_append_right ds hc)
    have hpoint : ∀ c ∈ ('.' :: (fs ++ p)).head?, isDigit c = false := by
      intro c hc
      obtain rfl := Option.some.inj hc
      rfl
    have hempty : (ds.isEmpty && fs.isEmpty) = false := by
      rw [Bool.eq_false_iff, ne_eq, Bool.and_eq_true, List.isEmpty_iff, List.isEmpty_iff]
      exact fun h => hne (List.append_eq_nil_iff.mpr h)
    rw [List.append_assoc, List.cons_append,
      readUnsigned?_point (dropWhile_run hwhole hpoint), Text.takeWhile_run hwhole hpoint,
      Text.takeWhile_run hfraction hhead, dropWhile_run hfraction hhead, hp.readExponent, hempty]
    rfl

/-- Digits or a point stand behind the sign. -/
theorem Digits.head (h : Digits m n places) : ∀ c ∈ (m ++ p).head?, c ≠ '-' ∧ c ≠ '+' := by
  intro c hc
  have hm : c ∈ m := by
    cases h with
    | whole hne =>
      obtain ⟨d, ds, rfl⟩ := List.exists_cons_of_ne_nil hne
      obtain rfl := Option.some.inj hc
      exact List.mem_cons_self
    | @point ds fs =>
      cases ds with
      | nil =>
        obtain rfl := Option.some.inj hc
        exact List.mem_cons_self
      | cons d ds =>
        obtain rfl := Option.some.inj hc
        exact List.mem_cons_self
  obtain hdigit | rfl := h.mem hm
  · exact ⟨ne_of_isDigit hdigit rfl, ne_of_isDigit hdigit rfl⟩
  · exact ⟨by simp, by simp⟩

/-- Only a minus in front makes a literal negative. -/
theorem Spells.negative_iff (h : Spells cs d) : d.negative = true ↔ cs.head? = some '-' := by
  cases h with
  | @literal s m p negative n places exponent hsign hdigits =>
    cases hsign with
    | minus => exact iff_of_true rfl rfl
    | plus => exact iff_of_false Bool.false_ne_true (by simp)
    | none => exact iff_of_false Bool.false_ne_true fun hm => (hdigits.head '-' hm).1 rfl

/-! ## What the reader takes is a literal -/

theorem exists_signs (cs : List Char) :
    ∃ s, Signs s (readSign cs).1 ∧ cs = s ++ (readSign cs).2 := by
  unfold readSign
  split
  · exact ⟨['-'], .minus, rfl⟩
  · exact ⟨['+'], .plus, rfl⟩
  · exact ⟨[], .none, rfl⟩

theorem isDigit_takeWhile (cs : List Char) : ∀ c ∈ cs.takeWhile isDigit, isDigit c :=
  fun _ hc => List.mem_takeWhile_imp hc

theorem exists_power (cs : List Char) :
    ∃ p, Power p (readExponent cs).1 ∧ cs = p ++ (readExponent cs).2 := by
  unfold readExponent
  split
  · rename_i e rest
    split
    · rename_i he
      obtain ⟨s, hsign, hrest⟩ := exists_signs rest
      dsimp only
      split
      · exact ⟨[], .none, rfl⟩
      · rename_i hempty
        refine ⟨e :: (s ++ (readSign rest).2.takeWhile isDigit),
          .some he hsign (by simpa using hempty) (isDigit_takeWhile _), ?_⟩
        rw [List.cons_append, List.append_assoc, List.takeWhile_append_dropWhile, ← hrest]
    · exact ⟨[], .none, rfl⟩
  · exact ⟨[], .none, rfl⟩

theorem exists_digits (h : readUnsigned? negative cs = some (d, rest)) :
    ∃ m p n places exponent, Digits m n places ∧ Power p exponent ∧ cs = m ++ (p ++ rest) ∧
      d = ⟨negative, n, exponent - places⟩ := by
  have hsplit := @List.takeWhile_append_dropWhile _ isDigit cs
  by_cases hpoint : ∃ after, cs.dropWhile isDigit = '.' :: after
  · obtain ⟨after, hafter⟩ := hpoint
    rw [readUnsigned?_point hafter] at h
    split at h
    · cases h
    rename_i hempty
    obtain ⟨rfl, rfl⟩ := Prod.mk.inj (Option.some.inj h)
    obtain ⟨p, hpower, hp⟩ := exists_power (after.dropWhile isDigit)
    refine ⟨_, p, _, _, _, .point ?_ ?_, hpower, ?_, rfl⟩
    · rw [Bool.and_eq_true, List.isEmpty_iff, List.isEmpty_iff] at hempty
      exact mt List.append_eq_nil_iff.mp hempty
    · intro c hc
      exact (List.mem_append.mp hc).elim (isDigit_takeWhile _ c) (isDigit_takeWhile _ c)
    · rw [← hp, List.append_assoc, List.cons_append, List.takeWhile_append_dropWhile, ← hafter,
        hsplit]
  · have hhead : ∀ c ∈ (cs.dropWhile isDigit).head?, c ≠ '.' := by
      rintro c hc rfl
      obtain ⟨after, hafter⟩ := List.head?_eq_some_iff.mp hc
      exact hpoint ⟨after, hafter⟩
    rw [readUnsigned?_whole hhead] at h
    split at h
    · cases h
    rename_i hempty
    obtain ⟨rfl, rfl⟩ := Prod.mk.inj (Option.some.inj h)
    obtain ⟨p, hpower, hp⟩ := exists_power (cs.dropWhile isDigit)
    refine ⟨_, p, _, _, _, .whole ?_ (isDigit_takeWhile cs), hpower, ?_, ?_⟩
    · exact mt List.isEmpty_iff.mpr hempty
    · rw [← hp, hsplit]
    · rw [Nat.cast_zero, sub_zero]

/-- The reader takes exactly the literals, as the numbers that they are. -/
theorem Decimal.read?_eq_some_iff : Decimal.read? cs = some d ↔ Spells cs d := by
  constructor
  · intro h
    obtain ⟨s, hsign, hcs⟩ := exists_signs cs
    unfold Decimal.read? at h
    generalize readSign cs = signed at *
    dsimp only at h
    split at h
    · rename_i d' hread
      cases h
      obtain ⟨m, p, n, places, exponent, hdigits, hpower, hrest, rfl⟩ := exists_digits hread
      rw [hcs, hrest, List.append_nil]
      exact .literal hsign hdigits hpower
    · cases h
  · rintro ⟨hsign, hdigits, hpower⟩
    unfold Decimal.read?
    rw [hsign.readSign hdigits.head]
    simp only [hdigits.readUnsigned? hpower]

end

/-! ## The number of a literal -/

/-- The number that is written. -/
def Decimal.value (d : Decimal) : ℚ := withSign d.negative (d.digits * 10 ^ d.exponent)

section
variable {n : ℕ} {q : ℚ}

theorem tenTo_digitCount_le (hn : n ≠ 0) : tenTo (digitCount n - 1) ≤ n := by
  have hpos := digitCount_pos n
  by_cases hone : digitCount n = 1
  · rw [hone]
    exact Nat.pos_of_ne_zero hn
  · by_contra hlt
    have hle := (digitCount_le_iff (by omega)).mpr (Nat.not_le.mp hlt)
    omega

/-- The places before the point tell how large a decimal is. -/
theorem places_bounds (hn : n ≠ 0) (e : ℤ) :
    (10 : ℚ) ^ (digitCount n + e - 1) ≤ n * 10 ^ e ∧
      (n : ℚ) * 10 ^ e < 10 ^ (digitCount n + e) := by
  have hten : (10 : ℚ) ≠ 0 := by norm_num
  have hpow : (0 : ℚ) < 10 ^ e := zpow_pos (by norm_num) e
  have hpos := digitCount_pos n
  have hlow : (10 : ℚ) ^ (digitCount n - 1) ≤ n := by exact_mod_cast tenTo_digitCount_le hn
  have hhigh : (n : ℚ) < 10 ^ digitCount n := by exact_mod_cast lt_tenTo_digitCount n
  constructor
  · have hexponent : (digitCount n : ℤ) + e - 1 = (digitCount n - 1 : ℕ) + e := by omega
    rw [hexponent, zpow_add₀ hten, zpow_natCast]
    exact mul_le_mul_of_nonneg_right hlow (le_of_lt hpow)
  · rw [zpow_add₀ hten, zpow_natCast]
    exact mul_lt_mul_of_pos_right hhigh hpow

/-- Less than half of the least double is rounded to zero. -/
theorem nearestTo_tiny (hq : 0 < q) (h : q < 2 ^ (-1075 : ℤ)) (negative : Bool) :
    nearestTo (withSign negative q) = ofMagnitude negative 0 := by
  have hlog := (Int.lt_zpow_iff_log_lt (b := 2) (by decide) hq).mp h
  have hunit : unitOf q = -1074 := max_eq_right (by omega)
  have hpow : (0 : ℚ) < 2 ^ (-1074 : ℤ) := zpow_pos two_pos _
  have hhalf : q / 2 ^ (-1074 : ℤ) < 1 / 2 := by
    have hexponent : (-1075 : ℤ) = -1074 - 1 := rfl
    rw [hexponent, zpow_sub_one₀ two_ne_zero] at h
    rw [div_lt_iff₀ hpow, mul_comm, one_div]
    exact h
  have hrounded : IsRounded 0 (q / 2 ^ unitOf q) := by
    have hdown : IsRounded 0 ((0 : ℕ) + q / 2 ^ (-1074 : ℤ)) :=
      isRounded_down (by positivity) (le_of_lt hhalf) fun _ => rfl
    rw [hunit]
    rwa [Nat.cast_zero, zero_add] at hdown
  rw [nearestTo_of_rounded hq hrounded, hunit]
  rfl

end

theorem two_zpow_le_ten_zpow {m n : ℕ} (h : twoTo m ≤ tenTo n) :
    (2 : ℚ) ^ (m : ℤ) ≤ 10 ^ (n : ℤ) := by
  rw [zpow_natCast, zpow_natCast]
  exact_mod_cast h

theorem ten_zpow_le_least : (10 : ℚ) ^ (-331 : ℤ) ≤ 2 ^ (-1075 : ℤ) := by
  rw [zpow_neg, zpow_neg]
  exact inv_anti₀ (zpow_pos two_pos _) (two_zpow_le_ten_zpow (by decide +kernel))

theorem overflow_le_ten_zpow : overflow ≤ 10 ^ (310 : ℤ) :=
  overflow_lt.le.trans (two_zpow_le_ten_zpow (m := 1024) (by decide +kernel))

/-- A literal that is not zero is the double nearest to its number. -/
theorem Decimal.toFloat_eq {d : Decimal} (hd : d.digits ≠ 0) : d.toFloat = nearestTo d.value := by
  have hdigits : (0 : ℚ) < d.digits := by exact_mod_cast Nat.pos_of_ne_zero hd
  have hq : (0 : ℚ) < d.digits * 10 ^ d.exponent :=
    mul_pos hdigits (zpow_pos (by norm_num) d.exponent)
  obtain ⟨hlow, hhigh⟩ := places_bounds hd d.exponent
  have hmono : ∀ {m n : ℤ}, m ≤ n → (10 : ℚ) ^ m ≤ 10 ^ n := zpow_le_zpow_right₀ (by norm_num)
  rw [Decimal.toFloat, Decimal.value, Decimal.magnitudeBits]
  split
  · rename_i htiny
    have hplaces : digitCount d.digits + d.exponent ≤ -331 := by omega
    refine (nearestTo_tiny hq ?_ d.negative).symm
    exact hhigh.trans_le ((hmono hplaces).trans ten_zpow_le_least)
  · split
    · rename_i hhuge
      have hplaces : 310 ≤ digitCount d.digits + d.exponent - 1 := by omega
      refine (nearestTo_of_overflow ?_ d.negative).symm
      exact overflow_le_ten_zpow.trans ((hmono hplaces).trans hlow)
    · have hnum : 0 < d.digits * tenTo d.exponent.toNat :=
        Nat.mul_pos (Nat.pos_of_ne_zero hd) (tenTo_pos _)
      have hquotient : ((d.digits * tenTo d.exponent.toNat : ℕ) : ℚ) /
          (tenTo (-d.exponent).toNat : ℕ) = d.digits * 10 ^ d.exponent := by
        obtain ⟨k, hk | hk⟩ := d.exponent.eq_nat_or_neg
        · simp [hk, tenTo]
        · simp [hk, tenTo, div_eq_mul_inv]
      rw [← hquotient, ← nearest_eq_nearestTo hnum (tenTo_pos _)]
      rfl

/-- A literal is the double nearest to its number, with the sign that it has. -/
theorem Decimal.isResult_toFloat (d : Decimal) : IsResult d.toFloat d.value := by
  by_cases hd : d.digits = 0
  · have hbits : d.magnitudeBits = 0 := if_pos (.inl hd)
    have hvalue : d.value = 0 := by
      rw [Decimal.value, hd, Nat.cast_zero, zero_mul, withSign_zero]
    rw [hvalue, Decimal.toFloat, hbits]
    cases d.negative with
    | false => exact .inl (nearestTo_zero ▸ rfl)
    | true => exact .inr ⟨rfl, rfl⟩
  · exact .inl (Decimal.toFloat_eq hd)

/-- So it is finite, unless its number is out of range. -/
theorem Decimal.isNearest_toFloat {d : Decimal} (h : |d.value| < 2 ^ (1023 : ℤ)) :
    IsNearest d.toFloat d.value :=
  d.isResult_toFloat.isNearest (d.isResult_toFloat.isFinite_iff.mpr (isFinite_nearestTo h))

end Tabular.Number

import Tabular.Proofs.Aggregate.Order
import Tabular.Proofs.Metric.Residue
import Tabular.Proofs.Number.Arithmetic

/-!
# The middle percentile

The position of the middle percentile is half of the last rank, and that is not rounded, so it lies
on the middle value or halfway between the two in the middle. There it adds half of their difference
to the lesser one, where the median takes half of their sum. Both are the same number as long as the
sum is finite and that half is not rounded (`percentile_eq_median`). Otherwise they may differ, and
one of them may be null (`percentile_ne_median`).
-/
namespace Tabular.Aggregate

/-! ## Ranks -/

section
variable {x : Float} {n : ℕ} {r : ℚ}

theorem floorRank_eq (hx : x.isFinite) : floorRank x = ⌊|Number.exact x|⌋₊ := by
  obtain ⟨p, hp⟩ := Number.exists_parts_of_isFinite hx
  rw [Number.abs_exact_of_parts hp, Nat.floor_div_eq_div, floorRank, hp]
  rfl

/-- A position on a rank has that rank on either side. -/
theorem rankBounds_on (hx : x.isFinite) (h : Number.exact x = n) : rankBounds x = (n, n) := by
  have habs : |Number.exact x| = n := by rw [h, Nat.abs_cast]
  have hfloor : ⌊|Number.exact x|⌋₊ = n := by rw [habs, Nat.floor_natCast]
  have hwhole : Number.isWhole x := (Number.isWhole_iff hx).mpr (by rw [hfloor, habs])
  rw [rankBounds, floorRank_eq hx, hfloor, if_pos hwhole]

/-- A position between two ranks has one on each side. -/
theorem rankBounds_between (hx : x.isFinite) (h : Number.exact x = n + r) (hlow : 0 < r)
    (hhigh : r < 1) : rankBounds x = (n, n + 1) := by
  have habs : |Number.exact x| = n + r := by rw [h, abs_of_nonneg (by positivity)]
  have hfloor : ⌊|Number.exact x|⌋₊ = n := by
    rw [habs, Nat.floor_eq_iff (by positivity)]
    exact ⟨by linarith, by linarith⟩
  have hwhole : ¬ Number.isWhole x := by
    rw [Number.isWhole_iff hx, hfloor, habs]
    exact fun h => ne_of_gt hlow (by linarith)
  rw [rankBounds, floorRank_eq hx, hfloor, if_neg hwhole]

theorem isFinite_rank {values : List Float} (hfinite : ∀ v ∈ values, v.isFinite)
    (hn : n < values.length) : (rank (sorted values) n).isFinite := by
  have hlength : n < (sorted values).length := by rwa [(sorted_perm values).length_eq]
  rw [rank, List.getD_eq_getElem _ _ hlength]
  exact hfinite _ ((sorted_perm values).mem_iff.mp (List.getElem_mem hlength))

end

/-! ## The middle -/

theorem exact_half : Number.exact 0.5 = 1 / 2 := by decide +kernel

theorem exact_two : Number.exact 2.0 = 2 := by decide +kernel

/-- Half of a rank is a double. -/
theorem exact_position {n : ℕ} (hn : n < 2 ^ 53) :
    Metric.IsExact (0.5 * Float.ofNat n) (n / 2) := by
  have hresult := Number.isResult_mul (x := 0.5) rfl (Number.isFinite_ofNat hn)
  have hscaled : Number.exact 0.5 * Number.exact (Float.ofNat n) =
      Number.withSign false (n * 2 ^ (-1 : ℤ)) := by
    rw [exact_half, Number.exact_ofNat hn, zpow_neg_one]
    show (1 : ℚ) / 2 * n = n * 2⁻¹
    ring
  rw [hscaled] at hresult
  obtain ⟨hfinite, hexact⟩ := hresult.exact_scaled hn (by decide) (by decide)
  refine ⟨hfinite, hexact.trans ?_⟩
  rw [zpow_neg_one]
  rfl

theorem clampPercentile_middle : clampPercentile 50.0 / 100.0 = 0.5 := by decide +kernel

/-- Half of the difference of two values is not rounded, and their sum is not too large. -/
structure MeetsHalfway (a b : Float) : Prop where
  half : Metric.IsExact ((b - a) * 0.5) ((Number.exact b - Number.exact a) / 2)
  sum : (a + b).isFinite

instance (a b : Float) : Decidable (MeetsHalfway a b) :=
  decidable_of_iff
    (Metric.IsExact ((b - a) * 0.5) ((Number.exact b - Number.exact a) / 2) ∧ (a + b).isFinite)
    ⟨fun h => ⟨h.1, h.2⟩, fun h => ⟨h.half, h.sum⟩⟩

section
variable {values : List Float} {m lower upper : ℕ}

theorem percentile_middle (hlength : values.length ≠ 1)
    (h : rankBounds (0.5 * Float.ofNat (values.length - 1)) = (lower, upper)) :
    percentile values 50.0 = rank (sorted values) lower +
      (rank (sorted values) upper - rank (sorted values) lower) *
        (0.5 * Float.ofNat (values.length - 1) - Float.ofNat lower) := by
  simp only [percentile, clampPercentile_middle, if_neg hlength, h]

/-- Of an odd number of values the middle percentile is the one in the middle. -/
theorem isResult_percentile_odd (hfinite : ∀ v ∈ values, v.isFinite)
    (hlength : values.length ≤ 2 ^ 53) (hodd : values.length = 2 * m + 1) :
    Number.IsResult (percentile values 50.0) (Number.exact (rank (sorted values) m)) := by
  have hmiddle := isFinite_rank hfinite (n := m) (by omega)
  rcases Nat.eq_zero_or_pos m with rfl | hm
  · rw [percentile, if_pos hodd]
    exact Number.isResult_self hmiddle
  obtain ⟨hposition, hexact⟩ := @exact_position (values.length - 1) (by omega)
  have hrank : Number.exact (0.5 * Float.ofNat (values.length - 1)) = m := by
    rw [hexact, hodd, Nat.add_sub_cancel]
    push_cast
    ring
  rw [percentile_middle (by omega) (rankBounds_on hposition hrank)]
  -- The value differs by zero from itself, and the position from its rank.
  have hdifference := Number.isResult_sub hmiddle hmiddle
  have hweight := Number.isResult_sub hposition (Number.isFinite_ofNat (n := m) (by omega))
  rw [sub_self] at hdifference
  rw [hrank, Number.exact_ofNat (by omega), sub_self] at hweight
  have hproduct := Number.isResult_mul hdifference.zero.1 hweight.zero.1
  rw [hdifference.zero.2, zero_mul] at hproduct
  have hsum := Number.isResult_add hmiddle hproduct.zero.1
  rwa [hproduct.zero.2, add_zero] at hsum

/-- Of an even number of values it is halfway between the two in the middle. -/
theorem isResult_percentile_even (hfinite : ∀ v ∈ values, v.isFinite)
    (hlength : values.length ≤ 2 ^ 53) (heven : values.length = 2 * m + 2)
    (hmeets : MeetsHalfway (rank (sorted values) m) (rank (sorted values) (m + 1))) :
    Number.IsResult (percentile values 50.0) ((Number.exact (rank (sorted values) m) +
      Number.exact (rank (sorted values) (m + 1))) / 2) := by
  obtain ⟨hposition, hexact⟩ := @exact_position (values.length - 1) (by omega)
  have hlast : values.length - 1 = 2 * m + 1 := by omega
  have hrank : Number.exact (0.5 * Float.ofNat (values.length - 1)) = m + 1 / 2 := by
    rw [hexact, hlast]
    push_cast
    ring
  have hweight := Number.isResult_sub hposition (Number.isFinite_ofNat (n := m) (by omega))
  rw [hrank, Number.exact_ofNat (by omega), add_sub_cancel_left] at hweight
  have hhalf : 0.5 * Float.ofNat (values.length - 1) - Float.ofNat m = 0.5 := by
    obtain h | ⟨h, -⟩ := hweight
    · rw [h, ← exact_half]
      exact Number.nearestTo_exact rfl fun hzero => by cases hzero
    · exact absurd h one_half_pos.ne'
  rw [percentile_middle (by omega) (rankBounds_between hposition hrank one_half_pos
    one_half_lt_one), hhalf]
  obtain ⟨hfiniteHalf, hexactHalf⟩ := hmeets.half
  have hsum := Number.isResult_add (isFinite_rank hfinite (n := m) (by omega)) hfiniteHalf
  rw [hexactHalf] at hsum
  convert hsum using 1
  ring

/-- The mean of two values is rounded once if their sum is not too large. -/
theorem nearestTo_mean {a b : Float} (ha : a.isFinite) (hb : b.isFinite) (h : (a + b).isFinite) :
    Number.IsResult ((a + b) / 2.0) (Number.exact (a + b) / 2) ∧
      Number.nearestTo (Number.exact (a + b) / 2) =
        Number.nearestTo ((Number.exact a + Number.exact b) / 2) := by
  have hsum := Number.isResult_add ha hb
  have hmean := Number.isResult_div (y := 2.0) h rfl (by rw [exact_two]; exact two_ne_zero)
  rw [exact_two] at hmean
  obtain ⟨k, hk⟩ := Number.exists_multiple ha
  obtain ⟨n, hn⟩ := Number.exists_multiple hb
  have hmultiple : Number.exact a + Number.exact b = (k + n : ℤ) * 2 ^ (-1074 : ℤ) := by
    rw [hk, hn, Int.cast_add, add_mul]
  refine ⟨hmean, ?_⟩
  rw [hsum.exact_eq]
  exact Number.nearestTo_half hmultiple (hsum.isFinite_iff.mp h)

end

/-- The middle percentile of finite values is their median. Of an even number of values this takes
that half of the difference of the two in the middle is not rounded and their sum is finite, and
of any number that the last rank is a double. -/
theorem percentile_eq_median {values : List Float} (hvalues : values ≠ [])
    (hfinite : ∀ v ∈ values, v.isFinite) (hlength : values.length ≤ 2 ^ 53)
    (hmeets : values.length % 2 = 0 → MeetsHalfway
      (rank (sorted values) (values.length / 2 - 1)) (rank (sorted values) (values.length / 2)))
    {p? : Option Float} (hp : p? = none ∨ p? = some 50.0) (q? : Option Float) :
    SameNumber (ofValues values .percentile p?) (ofValues values .median q?) := by
  have hmiddle : p?.getD 50.0 = 50.0 := by
    obtain rfl | rfl := hp
    · rfl
    · rfl
  have hpercentile : ofValues values .percentile p? = finite? (percentile values 50.0) := by
    obtain ⟨head, rest, rfl⟩ := List.exists_cons_of_ne_nil hvalues
    rw [← hmiddle]
    rfl
  have hmedian : ofValues values .median q? = finite? (median values) := by
    obtain ⟨head, rest, rfl⟩ := List.exists_cons_of_ne_nil hvalues
    rfl
  have hpos : 0 < values.length := List.length_pos_iff.mpr hvalues
  rw [hpercentile, hmedian, median]
  by_cases heven : values.length % 2 = 0
  · obtain ⟨m, hm⟩ : ∃ m, values.length = 2 * m + 2 := ⟨values.length / 2 - 1, by omega⟩
    have hhalf : values.length / 2 = m + 1 := by omega
    have hmeets := hmeets heven
    rw [hhalf, Nat.add_sub_cancel] at hmeets
    obtain ⟨hmean, hround⟩ := nearestTo_mean (isFinite_rank hfinite (by omega))
      (isFinite_rank hfinite (by omega)) hmeets.sum
    simp only [if_pos heven, hhalf, Nat.add_sub_cancel]
    exact sameNumber_finite? (isResult_percentile_even hfinite hlength hm hmeets) hmean hround.symm
  · obtain ⟨m, hm⟩ : ∃ m, values.length = 2 * m + 1 := ⟨values.length / 2, by omega⟩
    have hhalf : values.length / 2 = m := by omega
    simp only [if_neg heven, hhalf]
    exact sameNumber_finite? (isResult_percentile_odd hfinite hlength hm)
      (Number.isResult_self (isFinite_rank hfinite (by omega))) rfl

/-- Six whole numbers, not in order, and a median that is none of them. -/
theorem percentile_eq_median_whole :
    let values : List Float := [9.0, 1.0, 8.0, 2.0, 6.0, 3.0]
    sorted values = [1.0, 2.0, 3.0, 6.0, 8.0, 9.0] ∧
      SameNumber (ofValues values .percentile (some 50.0)) (ofValues values .median none) := by
  intro values
  have hsorted : sorted values = [1.0, 2.0, 3.0, 6.0, 8.0, 9.0] :=
    sorted_eq (by decide +kernel) (by decide +kernel)
  refine ⟨hsorted, percentile_eq_median (List.cons_ne_nil _ _) (by decide +kernel) (by decide)
    (fun _ => ?_) (.inr rfl) none⟩
  rw [hsorted]
  decide +kernel

/-- Two equal values whose sum is too large. Their difference is zero, so the percentile is the
value itself, but their median is null. -/
theorem percentile_ne_median :
    let values : List Float := [1e308, 1e308]
    (∀ v ∈ values, v.isFinite) ∧ ofValues values .percentile (some 50.0) = some 1e308 ∧
      ofValues values .median none = none ∧
      ¬ SameNumber (ofValues values .percentile (some 50.0)) (ofValues values .median none) := by
  intro values
  have hsorted : sorted values = [1e308, 1e308] := sorted_eq (by decide +kernel) (by decide +kernel)
  have hpercentile : ofValues values .percentile (some 50.0) = some 1e308 := by
    show finite? (percentile values 50.0) = _
    rw [percentile, hsorted]
    decide +kernel
  have hmedian : ofValues values .median none = none := by
    show finite? (median values) = _
    rw [median, hsorted]
    decide +kernel
  refine ⟨by decide +kernel, hpercentile, hmedian, ?_⟩
  rw [hpercentile, hmedian]
  exact id

end Tabular.Aggregate

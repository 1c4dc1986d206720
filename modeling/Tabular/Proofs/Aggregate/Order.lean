import Tabular.Proofs.Number.Value

/-!
# Aggregates that ignore row order

The order of bit patterns tells any two doubles apart, so there is one sorted list of given values,
and the median and every percentile are computed from it. The different values are the counting
keys that occur, and the least and the greatest value are told by a comparison with all the others.
So none of these aggregates depends on the order of its rows (`order_insensitive`); only which of
the two zeros is the least or the greatest does.
-/
namespace Tabular

theorem Number.orderKey_injective : Function.Injective Number.orderKey := by
  intro x y h
  have hx := x.toBits.toNat_lt
  have hy := y.toBits.toNat_lt
  have htwo : twoTo 63 = 2 ^ 63 := rfl
  refine Float.toBits_inj.mp (UInt64.toNat_inj.mp ?_)
  simp only [orderKey, htwo] at h
  split at h
  · split at h <;> omega
  · split at h <;> omega

namespace Aggregate

section
variable {values values' : List Float}

/-! ## Sorted values -/

theorem sorted_perm (values : List Float) : (sorted values).Perm values :=
  List.mergeSort_perm _ _

theorem pairwise_sorted (values : List Float) :
    (sorted values).Pairwise fun a b => Number.orderKey a ≤ Number.orderKey b := by
  have htrans : ∀ a b c : Float, decide (Number.orderKey a ≤ Number.orderKey b) →
      decide (Number.orderKey b ≤ Number.orderKey c) →
      decide (Number.orderKey a ≤ Number.orderKey c) := by
    simp only [decide_eq_true_iff]
    exact fun _ _ _ hab hbc => hab.trans hbc
  have htotal : ∀ a b : Float, decide (Number.orderKey a ≤ Number.orderKey b) ||
      decide (Number.orderKey b ≤ Number.orderKey a) := by
    simp only [Bool.or_eq_true, decide_eq_true_iff]
    exact fun _ _ => le_total _ _
  exact (List.pairwise_mergeSort htrans htotal values).imp fun h => of_decide_eq_true h

/-- There is one way to sort values. -/
theorem sorted_eq (hperm : values'.Perm values)
    (hsorted : values'.Pairwise fun a b => Number.orderKey a ≤ Number.orderKey b) :
    sorted values = values' :=
  List.Perm.eq_of_pairwise
    (fun _ _ _ _ hab hba => Number.orderKey_injective (le_antisymm hab hba))
    (pairwise_sorted values) hsorted ((sorted_perm values).trans hperm.symm)

theorem sorted_congr (h : values.Perm values') : sorted values = sorted values' :=
  sorted_eq ((sorted_perm values').trans h.symm) (pairwise_sorted values')

theorem median_congr (h : values.Perm values') : median values = median values' := by
  unfold median
  rw [sorted_congr h, h.length_eq]

theorem percentile_congr (h : values.Perm values') (p : Float) :
    percentile values p = percentile values' p := by
  unfold percentile
  rw [sorted_congr h, h.length_eq]

/-! ## Different values -/

/-- The counting keys of a table, in order of first occurrence. -/
def keys (table : List (Float × Nat)) : List UInt64 := table.map fun entry =>
  Number.countingKey entry.1

theorem keys_bump (value : Float) (table : List (Float × Nat)) :
    keys (bump value table) = if Number.countingKey value ∈ keys table then keys table
      else keys table ++ [Number.countingKey value] := by
  induction table with
  | nil => rfl
  | cons entry rest ih =>
    obtain ⟨v, n⟩ := entry
    unfold bump
    by_cases h : Number.countingKey v = Number.countingKey value
    · rw [if_pos h, if_pos (h ▸ List.mem_cons_self)]
      rfl
    · rw [if_neg h]
      show Number.countingKey v :: keys (bump value rest) = _
      have hmem : Number.countingKey value ∈ keys ((v, n) :: rest) ↔
          Number.countingKey value ∈ keys rest := by
        show _ ∈ Number.countingKey v :: keys rest ↔ _
        rw [List.mem_cons, or_iff_right (Ne.symm h)]
      rw [ih, if_congr hmem rfl rfl]
      split <;> rfl

/-- A table lists every value that was counted once, by its key. -/
theorem keys_tally (values : List Float) : (keys (tally values)).Nodup ∧
    ∀ k, k ∈ keys (tally values) ↔ k ∈ values.map Number.countingKey := by
  suffices h : ∀ (values : List Float) (table : List (Float × Nat)), (keys table).Nodup →
      (keys (values.foldl (fun table v => bump v table) table)).Nodup ∧
        ∀ k, k ∈ keys (values.foldl (fun table v => bump v table) table) ↔
          k ∈ keys table ∨ k ∈ values.map Number.countingKey by
    obtain ⟨hnodup, hmem⟩ := h values [] List.nodup_nil
    exact ⟨hnodup, fun k => (hmem k).trans (or_iff_right List.not_mem_nil)⟩
  intro values
  induction values with
  | nil => exact fun table h => ⟨h, fun k => (or_iff_left List.not_mem_nil).symm⟩
  | cons v rest ih =>
    intro table htable
    have hbump : (keys (bump v table)).Nodup ∧ ∀ k, k ∈ keys (bump v table) ↔
        k ∈ keys table ∨ k = Number.countingKey v := by
      rw [keys_bump]
      by_cases h : Number.countingKey v ∈ keys table
      · rw [if_pos h]
        exact ⟨htable, fun k => (or_iff_left_of_imp fun hk => hk ▸ h).symm⟩
      · rw [if_neg h]
        refine ⟨List.nodup_append.mpr ⟨htable, List.nodup_singleton _, ?_⟩, fun k => ?_⟩
        · intro a ha b hb hab
          rw [List.mem_singleton] at hb
          exact h (hb ▸ hab ▸ ha)
        · rw [List.mem_append, List.mem_singleton]
    obtain ⟨hnodup, hmem⟩ := ih _ hbump.1
    refine ⟨hnodup, fun k => (hmem k).trans ?_⟩
    rw [hbump.2, List.map_cons, List.mem_cons, or_assoc]

/-- Values are counted by their keys. -/
theorem distinct_eq_card (values : List Float) :
    distinct values = (values.map Number.countingKey).toFinset.card := by
  obtain ⟨hnodup, hmem⟩ := keys_tally values
  have hset : (values.map Number.countingKey).toFinset = (keys (tally values)).toFinset := by
    ext k
    rw [List.mem_toFinset, List.mem_toFinset, hmem]
  rw [hset, List.toFinset_card_of_nodup hnodup]
  exact (List.length_map _).symm

theorem distinct_congr (h : values.Perm values') : distinct values = distinct values' := by
  rw [distinct_eq_card, distinct_eq_card,
    List.toFinset_eq_of_perm _ _ (h.map Number.countingKey)]

end

/-! ## Least and greatest values -/

/-- A choice between two finite values, of which the one that is chosen comes before both. A fold
that starts at `start` takes the first value. -/
structure Picks (pick : Float → Float → Float) (start : Float) (before : ℚ → ℚ → Prop) :
    Prop where
  first : ∀ v, v.isFinite → pick start v = v
  either : ∀ a b, a.isFinite → b.isFinite → pick a b = a ∨ pick a b = b
  left : ∀ a b, a.isFinite → b.isFinite → before (Number.exact (pick a b)) (Number.exact a)
  right : ∀ a b, a.isFinite → b.isFinite → before (Number.exact (pick a b)) (Number.exact b)

/-- Finite doubles are numbers, and lie between the infinities. -/
theorem between_infinities {x : Float} (hx : x.isFinite) :
    x.isNaN = false ∧ x < Number.infinity ∧ -Number.infinity < x := by
  have hdecoded := Number.isDecoded_of_isFinite hx
  have hpositive : Number.infinity.toModel.unpack = .infinity .positive := by rfl
  have hnegative : (-Number.infinity).toModel.unpack = .infinity .negative := by rfl
  rw [Number.lt_iff_compare, Number.lt_iff_compare, hpositive, hnegative]
  show x.toModel.unpack.isNaN = false ∧ _
  generalize x.toModel.unpack = u at *
  cases hdecoded using Number.IsDecoded.elim with
  | zero s => exact ⟨rfl, rfl, rfl⟩
  | finite s m e h => exact ⟨rfl, rfl, rfl⟩

/-- A choice by one comparison, that of the later value with the earlier one. -/
theorem picks_of_comparison {pick : Float → Float → Float} {start : Float} {before : ℚ → ℚ → Prop}
    [Std.Refl before] {takes : Float → Float → Prop} [DecidableRel takes]
    (hpick : ∀ a b, pick a b = if a.isNaN then b else if takes a b then b else a)
    (hnumber : start.isNaN = false) (hstart : ∀ v, v.isFinite → takes start v)
    (htakes : ∀ a b, a.isFinite → b.isFinite → takes a b → before (Number.exact b) (Number.exact a))
    (hkeeps : ∀ a b, a.isFinite → b.isFinite → ¬ takes a b →
      before (Number.exact a) (Number.exact b)) : Picks pick start before := by
  have hfinite : ∀ a b, a.isFinite → pick a b = if takes a b then b else a := by
    intro a b ha
    rw [hpick, (between_infinities ha).1, if_neg Bool.false_ne_true]
  refine ⟨fun v hv => ?_, fun a b ha _ => ?_, fun a b ha hb => ?_, fun a b ha hb => ?_⟩
  · rw [hpick, hnumber, if_neg Bool.false_ne_true, if_pos (hstart v hv)]
  · rw [hfinite a b ha]
    by_cases h : takes a b
    · exact .inr (if_pos h)
    · exact .inl (if_neg h)
  · rw [hfinite a b ha]
    by_cases h : takes a b
    · rw [if_pos h]
      exact htakes a b ha hb h
    · rw [if_neg h]
      exact refl_of before _
  · rw [hfinite a b ha]
    by_cases h : takes a b
    · rw [if_pos h]
      exact refl_of before _
    · rw [if_neg h]
      exact hkeeps a b ha hb h

theorem picks_lesser : Picks lesser Number.infinity (· ≤ ·) := by
  have hnumber : Number.infinity.isNaN = false := by decide +kernel
  refine picks_of_comparison (fun _ _ => rfl) hnumber (fun v hv => (between_infinities hv).2.1)
    (fun a b ha hb h => ?_) fun a b ha hb h => ?_
  · exact le_of_lt ((Number.lt_iff_exact_lt hb ha).mp h)
  · exact not_lt.mp (mt (Number.lt_iff_exact_lt hb ha).mpr h)

theorem picks_greater : Picks greater (-Number.infinity) (· ≥ ·) := by
  have hnumber : (-Number.infinity).isNaN = false := by decide +kernel
  refine picks_of_comparison (fun _ _ => rfl) hnumber (fun v hv => (between_infinities hv).2.2)
    (fun a b ha hb h => ?_) fun a b ha hb h => ?_
  · exact le_of_lt ((Number.lt_iff_exact_lt ha hb).mp h)
  · exact not_lt.mp (mt (Number.lt_iff_exact_lt ha hb).mpr h)

section
variable {pick : Float → Float → Float} {start : Float} {before : ℚ → ℚ → Prop}
  [IsPartialOrder ℚ before]

/-- A fold chooses one of the values, which comes before all of them. -/
theorem Picks.foldl (h : Picks pick start before) {head : Float} {rest : List Float}
    (hfinite : ∀ v ∈ head :: rest, v.isFinite) :
    (head :: rest).foldl pick start ∈ head :: rest ∧ ∀ v ∈ head :: rest,
      before (Number.exact ((head :: rest).foldl pick start)) (Number.exact v) := by
  rw [List.foldl_cons, h.first head (hfinite head List.mem_cons_self)]
  induction rest generalizing head with
  | nil =>
    refine ⟨List.mem_cons_self, fun v hv => ?_⟩
    rw [List.mem_singleton.mp hv]
    exact refl_of before _
  | cons next rest ih =>
    have hhead := hfinite head List.mem_cons_self
    have hnext := hfinite next (List.mem_cons_of_mem _ List.mem_cons_self)
    have heither := h.either head next hhead hnext
    have hfinite' : ∀ v ∈ pick head next :: rest, v.isFinite := by
      intro v hv
      obtain rfl | hv := List.mem_cons.mp hv
      · obtain heq | heq := heither
        · rwa [heq]
        · rwa [heq]
      · exact hfinite v (List.mem_cons_of_mem _ (List.mem_cons_of_mem _ hv))
    obtain ⟨hmem, hbefore⟩ := ih hfinite'
    rw [List.foldl_cons]
    refine ⟨?_, fun v hv => ?_⟩
    · obtain hmem | hmem := List.mem_cons.mp hmem
      · rw [hmem]
        obtain heq | heq := heither
        · rw [heq]
          exact List.mem_cons_self
        · rw [heq]
          exact List.mem_cons_of_mem _ List.mem_cons_self
      · exact List.mem_cons_of_mem _ (List.mem_cons_of_mem _ hmem)
    · have hpicked := hbefore _ List.mem_cons_self
      obtain rfl | hv := List.mem_cons.mp hv
      · exact trans_of before hpicked (h.left _ _ hhead hnext)
      · obtain rfl | hv := List.mem_cons.mp hv
        · exact trans_of before hpicked (h.right _ _ hhead hnext)
        · exact hbefore v (List.mem_cons_of_mem _ hv)

variable {head head' : Float} {rest rest' : List Float}

/-- From the same values in another order a fold chooses the same number. -/
theorem Picks.sameNumber (h : Picks pick start before)
    (hperm : (head :: rest).Perm (head' :: rest')) (hfinite : ∀ v ∈ head :: rest, v.isFinite) :
    SameNumber (finite? ((head :: rest).foldl pick start))
      (finite? ((head' :: rest').foldl pick start)) := by
  have hfinite' : ∀ v ∈ head' :: rest', v.isFinite :=
    fun v hv => hfinite v (hperm.mem_iff.mpr hv)
  obtain ⟨hmem, hbefore⟩ := h.foldl hfinite
  obtain ⟨hmem', hbefore'⟩ := h.foldl hfinite'
  have hx := hfinite _ hmem
  have hy := hfinite' _ hmem'
  rw [finite?, if_pos hx, finite?, if_pos hy]
  exact (Number.beq_iff_exact_eq hx hy).mpr (antisymm_of before
    (hbefore _ (hperm.mem_iff.mpr hmem')) (hbefore' _ (hperm.mem_iff.mp hmem)))

end

/-! ## Rows in another order -/

section
variable {values values' : List Float} {kind : AggregateKind}

theorem perm_cases (hperm : values.Perm values') : (values = [] ∧ values' = []) ∨
    ∃ head rest head' rest', values = head :: rest ∧ values' = head' :: rest' := by
  cases values with
  | nil => exact .inl ⟨rfl, hperm.nil_eq.symm⟩
  | cons head rest =>
    cases values' with
    | nil => exact absurd hperm.eq_nil (List.cons_ne_nil head rest)
    | cons head' rest' => exact .inr ⟨head, rest, head', rest', rfl, rfl⟩

theorem ofValues_congr (hperm : values.Perm values') (p? : Option Float)
    (hkind : kind ∈ [AggregateKind.count, .distinct, .median, .percentile]) :
    ofValues values kind p? = ofValues values' kind p? := by
  simp only [List.mem_cons, List.not_mem_nil, or_false] at hkind
  obtain rfl | rfl | rfl | rfl := hkind
  · exact congrArg (fun n => some (Float.ofNat n)) hperm.length_eq
  · exact congrArg (fun n => some (Float.ofNat n)) (distinct_congr hperm)
  · obtain ⟨rfl, rfl⟩ | ⟨head, rest, head', rest', rfl, rfl⟩ := perm_cases hperm
    · rfl
    · exact congrArg finite? (median_congr hperm)
  · obtain ⟨rfl, rfl⟩ | ⟨head, rest, head', rest', rfl, rfl⟩ := perm_cases hperm
    · rfl
    · exact congrArg finite? (percentile_congr hperm _)

theorem sameNumber_ofValues (hperm : values.Perm values') (hfinite : ∀ v ∈ values, v.isFinite)
    (p? : Option Float) (hkind : kind ∈ [AggregateKind.min, .max]) :
    SameNumber (ofValues values kind p?) (ofValues values' kind p?) := by
  simp only [List.mem_cons, List.not_mem_nil, or_false] at hkind
  obtain ⟨rfl, rfl⟩ | ⟨head, rest, head', rest', rfl, rfl⟩ := perm_cases hperm
  · obtain rfl | rfl := hkind
    · trivial
    · trivial
  · obtain rfl | rfl := hkind
    · exact picks_lesser.sameNumber hperm hfinite
    · exact picks_greater.sameNumber hperm hfinite

end

/-- Counts, medians and percentiles of values are the same in every order of the values, and so
are the least and the greatest value up to the sign of a zero. This holds of the numbers of a
column too, as long as the kind scans all of the rows. -/
theorem order_insensitive (p? : Option Float) :
    (∀ values values' : List Float, values.Perm values' → (∀ v ∈ values, v.isFinite) →
      (∀ kind ∈ [AggregateKind.count, .distinct, .median, .percentile],
        ofValues values kind p? = ofValues values' kind p?) ∧
      ∀ kind ∈ [AggregateKind.min, .max],
        SameNumber (ofValues values kind p?) (ofValues values' kind p?)) ∧
    ∀ (rows rows' : Dataset) (column : String), rows.Perm rows' →
      (∀ kind ∈ [AggregateKind.count, .distinct, .median, .percentile],
        rows.length ≤ kind.rowCeiling →
          ofRows rows column kind p? = ofRows rows' column kind p?) ∧
      ∀ kind ∈ [AggregateKind.min, .max], rows.length ≤ kind.rowCeiling →
        SameNumber (ofRows rows column kind p?) (ofRows rows' column kind p?) := by
  refine ⟨fun values values' hperm hfinite => ⟨?_, ?_⟩, fun rows rows' column hperm => ?_⟩
  · exact fun kind hkind => ofValues_congr hperm p? hkind
  · exact fun kind hkind => sameNumber_ofValues hperm hfinite p? hkind
  have hnumbers : (numbers rows column).Perm (numbers rows' column) := hperm.filterMap _
  have hfinite : ∀ v ∈ numbers rows column, v.isFinite := by
    intro v hv
    obtain ⟨row, -, hrow⟩ := List.mem_filterMap.mp hv
    exact Cell.number?_finite _ v hrow
  have hscanned : ∀ kind : AggregateKind, rows.length ≤ kind.rowCeiling →
      ofRows rows column kind p? = ofValues (numbers rows column) kind p? ∧
        ofRows rows' column kind p? = ofValues (numbers rows' column) kind p? := by
    intro kind hle
    rw [ofRows, ofRows, List.take_of_length_le hle,
      List.take_of_length_le (hperm.length_eq ▸ hle)]
    exact ⟨rfl, rfl⟩
  refine ⟨fun kind hkind hle => ?_, fun kind hkind hle => ?_⟩
  · rw [(hscanned kind hle).1, (hscanned kind hle).2]
    exact ofValues_congr hnumbers p? hkind
  · rw [(hscanned kind hle).1, (hscanned kind hle).2]
    exact sameNumber_ofValues hnumbers hfinite p? hkind

/-- Both zeros among three values, and rows without a number in the column. The least value is a
zero of either sign. -/
theorem order_insensitive_zeros :
    let values := [2.0, -0.0, 0.0]
    let values' := [0.0, 2.0, -0.0]
    let rows := [Row.ofList [("Cost", .number 3.0)], Row.ofList [("Cost", .text "n/a")],
      Row.ofList [("Cost", .text "(1)")]]
    ofValues values .median none = ofValues values' .median none ∧
      ofValues values .min none = some (-0.0) ∧ ofValues values' .min none = some 0.0 ∧
      SameNumber (ofValues values .min none) (ofValues values' .min none) ∧
      ofRows rows "Cost" .percentile none = ofRows rows.reverse "Cost" .percentile none ∧
      SameNumber (ofRows rows "Cost" .max none) (ofRows rows.reverse "Cost" .max none) := by
  intro values values' rows
  obtain ⟨hvalues, hrows⟩ := order_insensitive none
  have hperm : values.Perm values' := by decide +kernel
  have hfinite : ∀ v ∈ values, v.isFinite := by decide +kernel
  obtain ⟨hsame, hextreme⟩ := hvalues values values' hperm hfinite
  obtain ⟨hsameRows, hextremeRows⟩ := hrows rows rows.reverse "Cost" (List.reverse_perm rows).symm
  refine ⟨?_, by decide +kernel, by decide +kernel, ?_, ?_, ?_⟩
  · exact hsame .median (by decide)
  · exact hextreme .min (by decide)
  · exact hsameRows .percentile (by decide) (by decide)
  · exact hextremeRows .max (by decide) (by decide)

end Aggregate
end Tabular

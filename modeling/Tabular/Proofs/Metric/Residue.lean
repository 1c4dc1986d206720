import Tabular.Proofs.Metric.Window
import Tabular.Proofs.Number.Value

/-!
# What leaves a moving average's window

A moving average adds the value that enters its window to a sum of doubles and subtracts the one
that leaves. As long as none of these steps is rounded, the sum is that of the window, so the
average depends on the window alone (`movingAverage_of_window`). A value that is large enough to
be rounded or to overflow leaves something of itself behind (`not_sameAt_of_overflow`).
-/
namespace Tabular.Metric
open Number

/-- A finite double is computed, and it is the exact result. -/
def IsExact (computed : Float) (result : ℚ) : Prop :=
  computed.isFinite ∧ Number.exact computed = result

instance (computed : Float) (result : ℚ) : Decidable (IsExact computed result) :=
  inferInstanceAs (Decidable (_ ∧ _))

/-- One row of a moving average: neither the value that enters nor the one that leaves makes the
sum round. -/
structure ExactStep (carried : Float × Nat) (entering leaving : Option Float) : Prop where
  enters : ∀ v ∈ entering, IsExact (carried.1 + v) (Number.exact carried.1 + Number.exact v)
  leaves : ∀ v ∈ leaving, IsExact ((enter carried entering).1 - v)
    (Number.exact (enter carried entering).1 - Number.exact v)

instance (carried : Float × Nat) (entering leaving : Option Float) :
    Decidable (ExactStep carried entering leaving) :=
  decidable_of_iff
    ((∀ v ∈ entering, IsExact (carried.1 + v) (Number.exact carried.1 + Number.exact v)) ∧
      ∀ v ∈ leaving, IsExact ((enter carried entering).1 - v)
        (Number.exact (enter carried entering).1 - Number.exact v))
    ⟨fun h => ⟨h.1, h.2⟩, fun h => ⟨h.enters, h.leaves⟩⟩

/-- The sum that a moving average carries is not rounded on the first `n` rows. -/
def Unrounded (values : List (Option Float)) (window n : Nat) : Prop :=
  ∀ i < n, ExactStep (carried 0.0 values window i) values[i]?.join (leaving values window i)

instance (values : List (Option Float)) (window n : Nat) : Decidable (Unrounded values window n) :=
  inferInstanceAs (Decidable (∀ i < n, _))

/-- A sum of doubles and a count stand for an exact sum and the same count. The exact sum
tells the double, which is not the negative zero. -/
structure StandsFor (carried : Float × Nat) (unrounded : ℚ × Nat) : Prop where
  isFinite : carried.1.isFinite
  unsigned : ¬ IsNegativeZero carried.1
  sum : Number.exact carried.1 = unrounded.1
  count : carried.2 = unrounded.2

section
variable {c c' : Float × Nat} {q : ℚ × Nat}

theorem StandsFor.unique (h : StandsFor c q) (h' : StandsFor c' q) : c = c' :=
  Prod.ext (eq_of_exact_eq h.isFinite h'.isFinite h.unsigned h'.unsigned (h.sum.trans h'.sum.symm))
    (h.count.trans h'.count.symm)

theorem StandsFor.enter (h : StandsFor c q) {v : Option Float} (hv : FiniteOrNull v)
    (hexact : ∀ x ∈ v, IsExact (c.1 + x) (Number.exact c.1 + Number.exact x)) :
    StandsFor (enter c v) (enter q (v.map Number.exact)) := by
  cases v with
  | none => exact h
  | some x =>
    obtain ⟨hfinite, hsum⟩ := hexact x rfl
    exact ⟨hfinite, not_isNegativeZero_add h.isFinite (hv x rfl) h.unsigned hsum,
      hsum.trans (by rw [h.sum]; rfl), congrArg (· + 1) h.count⟩

theorem StandsFor.leave (h : StandsFor c q) {v : Option Float} (hv : FiniteOrNull v)
    (hexact : ∀ x ∈ v, IsExact (c.1 - x) (Number.exact c.1 - Number.exact x)) :
    StandsFor (leave c v) (leave q (v.map Number.exact)) := by
  cases v with
  | none => exact h
  | some x =>
    obtain ⟨hfinite, hdifference⟩ := hexact x rfl
    exact ⟨hfinite, not_isNegativeZero_sub h.isFinite (hv x rfl) h.unsigned hdifference,
      hdifference.trans (by rw [h.sum]; rfl), congrArg (· - 1) h.count⟩

end

section
variable {values first second : List (Option Float)} {window n : Nat}

theorem getElem?_join_finite (h : ∀ v ∈ values, FiniteOrNull v) (i : Nat) :
    FiniteOrNull values[i]?.join :=
  fun x hx => h (some x) (List.mem_of_getElem? (Option.join_eq_some_iff.mp hx)) x rfl

theorem leaving_finite (h : ∀ v ∈ values, FiniteOrNull v) (window n : Nat) :
    FiniteOrNull (leaving values window n) := by
  unfold leaving
  split
  · exact fun x hx => by cases hx
  · exact getElem?_join_finite h _

theorem getElem?_join_map (values : List (Option Float)) (i : Nat) :
    (values.map (Option.map Number.exact))[i]?.join = values[i]?.join.map Number.exact := by
  rw [List.getElem?_map]
  cases values[i]? <;> rfl

theorem leaving_map (values : List (Option Float)) (window n : Nat) :
    leaving (values.map (Option.map Number.exact)) window n =
      (leaving values window n).map Number.exact := by
  unfold leaving
  split
  · rfl
  · exact getElem?_join_map values _

/-- As long as nothing is rounded, the sum of doubles stands for the sum of exact values. -/
theorem standsFor_carried (hfinite : ∀ v ∈ values, FiniteOrNull v)
    (h : Unrounded values window n) : StandsFor (carried 0.0 values window n)
      (carried 0 (values.map (Option.map Number.exact)) window n) := by
  induction n with
  | zero => exact ⟨isFinite_zero, not_isNegativeZero_zero, exact_zero, rfl⟩
  | succ n ih =>
    have hstep := h n (Nat.lt_succ_self n)
    have hbefore := ih fun i hi => h i (Nat.lt_succ_of_lt hi)
    have hentered := hbefore.enter (getElem?_join_finite hfinite n) hstep.enters
    rw [carried, carried, getElem?_join_map, leaving_map]
    exact hentered.leave (leaving_finite hfinite window n) hstep.leaves

/-- What is carried on two sequences is the same where their windows are, if nothing has been
rounded on either. -/
theorem carried_of_window (hfirst : ∀ v ∈ first, FiniteOrNull v)
    (hsecond : ∀ v ∈ second, FiniteOrNull v) (hn : n ≤ first.length) (hn' : n ≤ second.length)
    (hexact : Unrounded first window n) (hexact' : Unrounded second window n)
    (h : trailing first window n = trailing second window n) :
    carried 0.0 first window n = carried 0.0 second window n := by
  have hmap : ∀ values : List (Option Float),
      trailing (values.map (Option.map Number.exact)) window n =
        (trailing values window n).map (Option.map Number.exact) := by
    intro values
    rw [trailing, trailing, List.map_drop, List.map_take]
  have hsame : carried 0 (first.map (Option.map Number.exact)) window n =
      carried 0 (second.map (Option.map Number.exact)) window n := by
    refine Prod.ext ?_ ?_
    · rw [sum_carried (by simpa using hn), sum_carried (by simpa using hn'), hmap, hmap, h]
    · rw [count_carried (by simpa using hn), count_carried (by simpa using hn'), hmap, hmap, h]
  exact (standsFor_carried hfirst hexact).unique (hsame ▸ standsFor_carried hsecond hexact')

end

/-! ## Datasets -/

/-- Two datasets of one length that a moving average reads in the same column, with the same cells
there in the window that ends at row `i`. -/
structure AgreeInWindow (config : MetricConfig) (column : String) (window i : Nat)
    (first second : Dataset) : Prop where
  kind : config.kind = .movingAverage
  reads : ∃ periods, inputs config (columns first) = .ok (.sequence column window periods)
  reads' : ∃ periods, inputs config (columns second) = .ok (.sequence column window periods)
  rowCount : first.length = second.length
  row : i < first.length
  cells : ∀ k, i < k + window → k ≤ i →
    first[k]?.map (·.cell column) = second[k]?.map (·.cell column)

/-- The metric has a value on both datasets, and it writes the same at row `i`. -/
def SameAt (config : MetricConfig) (i : Nat) (first second : Dataset) : Prop :=
  ∃ out out' row row' value, apply first config = .ok out ∧ apply second config = .ok out' ∧
    out[i]? = some row ∧ out'[i]? = some row' ∧
    row.get? config.output = some (.ofValue value) ∧
    row'.get? config.output = some (.ofValue value)

section
variable {config : MetricConfig} {column : String} {window i : Nat} {first second : Dataset}

theorem AgreeInWindow.trailing_eq (h : AgreeInWindow config column window i first second) :
    trailing (first.map (·.number? column)) window (i + 1) =
      trailing (second.map (·.number? column)) window (i + 1) := by
  apply List.ext_getElem?
  intro k
  rw [trailing, trailing, List.getElem?_drop, List.getElem?_drop]
  by_cases hk : i + 1 - window + k ≤ i
  · have hcells := h.cells (i + 1 - window + k) (by omega) hk
    rw [List.getElem?_take_of_lt (by omega), List.getElem?_take_of_lt (by omega),
      List.getElem?_map, List.getElem?_map]
    have hnumbers := congrArg (Option.map Cell.number?) hcells
    rw [Option.map_map, Option.map_map] at hnumbers
    exact hnumbers
  · rw [List.getElem?_take_eq_none (by omega), List.getElem?_take_eq_none (by omega)]

/-- A moving average of doubles at a row. -/
theorem movingAverage_at {rows : Dataset} {periods : Nat} (hkind : config.kind = .movingAverage)
    (hreads : inputs config (columns rows) = .ok (.sequence column window periods))
    (hi : i < rows.length) : ∃ out row, apply rows config = .ok out ∧ out[i]? = some row ∧
      row.get? config.output = some (.ofValue (finite? (quotient (fun sum n => sum / Float.ofNat n)
        (carried 0.0 (rows.map (·.number? column)) window (i + 1))))) := by
  have hrows : rows ≠ [] := List.ne_nil_of_length_pos (Nat.zero_lt_of_lt hi)
  have hvalue : (movingAverages 0.0 (fun sum n => sum / Float.ofNat n)
      (rows.map (·.number? column)) window)[i]? = _ := getElem?_movingAverages (by simpa using hi)
  have hout := (apply_eq_ok hrows).mpr ⟨_, hreads, rfl⟩
  refine ⟨_, _, hout, ?_, (rows[i]).get?_insert_self config.output _⟩
  rw [List.getElem?_zipWith_eq_some]
  refine ⟨rows[i], _, List.getElem?_eq_getElem hi, ?_, rfl⟩
  rw [List.getElem?_map, hkind]
  exact congrArg _ hvalue

/-- Where the sums of a moving average are not rounded, neither on one dataset nor on the other,
its value at a row depends on nothing but the cells in the window that ends there. -/
theorem movingAverage_of_window (h : AgreeInWindow config column window i first second)
    (hexact : Unrounded (first.map (·.number? column)) window (i + 1))
    (hexact' : Unrounded (second.map (·.number? column)) window (i + 1)) :
    SameAt config i first second := by
  obtain ⟨periods, hreads⟩ := h.reads
  obtain ⟨periods', hreads'⟩ := h.reads'
  have hrow : i + 1 ≤ second.length := h.rowCount ▸ h.row
  have hfinite : ∀ rows : Dataset, ∀ v ∈ rows.map (·.number? column), FiniteOrNull v := by
    intro rows v hv
    obtain ⟨row, -, rfl⟩ := List.mem_map.mp hv
    exact Cell.number?_finite _
  have hcarried := carried_of_window (hfinite first) (hfinite second) (by simpa using h.row)
    (by simpa using hrow) hexact hexact' h.trailing_eq
  obtain ⟨out, row, hout, hat, hvalue⟩ := movingAverage_at h.kind hreads h.row
  obtain ⟨out', row', hout', hat', hvalue'⟩ := movingAverage_at h.kind hreads' hrow
  rw [hcarried] at hvalue
  exact ⟨out, out', row, row', _, hout, hout', hat, hat', hvalue, hvalue'⟩

/-- A large value has left the window without a trace: all numbers are whole, so none is rounded. -/
theorem movingAverage_of_window_whole :
    let config : MetricConfig :=
      { kind := .movingAverage, output := "Mean", column? := some " revenue", window? := some 2 }
    let first := [Row.ofList [("Revenue", .text "$1,000,000")],
      Row.ofList [("Revenue", .number 3.0)], Row.ofList [("Revenue", .null)]]
    let second := [Row.ofList [("Cost", .bool true)], Row.ofList [("Revenue", .number 3.0)],
      Row.ofList [("Cost", .null)]]
    AgreeInWindow config "Revenue" 2 2 first second ∧
      Unrounded (first.map (·.number? "Revenue")) 2 3 ∧
      Unrounded (second.map (·.number? "Revenue")) 2 3 ∧ SameAt config 2 first second := by
  intro config first second
  have hreads : inputs config (columns first) = .ok (.sequence "Revenue" 2 1) :=
    toOption_eq_some.mp (by decide +kernel)
  have hreads' : inputs config (columns second) = .ok (.sequence "Revenue" 2 1) :=
    toOption_eq_some.mp (by decide +kernel)
  have hagree : AgreeInWindow config "Revenue" 2 2 first second :=
    ⟨rfl, ⟨1, hreads⟩, ⟨1, hreads'⟩, rfl, by decide, by
      intro k hk hk'
      obtain rfl | rfl : k = 1 ∨ k = 2 := by omega
      · decide +kernel
      · decide +kernel⟩
  have hexact : Unrounded (first.map (·.number? "Revenue")) 2 3 := by decide +kernel
  have hexact' : Unrounded (second.map (·.number? "Revenue")) 2 3 := by decide +kernel
  exact ⟨hagree, hexact, hexact', movingAverage_of_window hagree hexact hexact'⟩

/-- Two values that overflow where they meet: the sum stays infinite after both have left a window
of one row, so a later row has no average where it has one without them. -/
theorem not_sameAt_of_overflow :
    ¬ ∀ (config : MetricConfig) (column : String) (window i : Nat) (first second : Dataset),
      1 ≤ window → AgreeInWindow config column window i first second →
      SameAt config i first second := by
  intro hall
  let config : MetricConfig :=
    { kind := .movingAverage, output := "Mean", column? := some "Revenue", window? := some 1 }
  let first := [Row.ofList [("Revenue", .number 1e308)], Row.ofList [("Revenue", .number 1e308)],
    Row.ofList [("Revenue", .number 1.0)]]
  let second := [Row.ofList [("Revenue", .number 0.0)], Row.ofList [("Revenue", .number 0.0)],
    Row.ofList [("Revenue", .number 1.0)]]
  have hreads : inputs config (columns first) = .ok (.sequence "Revenue" 1 1) :=
    toOption_eq_some.mp (by decide +kernel)
  have hreads' : inputs config (columns second) = .ok (.sequence "Revenue" 1 1) :=
    toOption_eq_some.mp (by decide +kernel)
  have hagree : AgreeInWindow config "Revenue" 1 2 first second :=
    ⟨rfl, ⟨1, hreads⟩, ⟨1, hreads'⟩, Eq.refl 3, by decide, by
      intro k hk hk'
      obtain rfl : k = 2 := by omega
      decide +kernel⟩
  have hleft : ((apply first config).toOption.bind (·[2]?)).bind (·.get? "Mean") = some .null := by
    decide +kernel
  have hright : ((apply second config).toOption.bind (·[2]?)).bind (·.get? "Mean") =
      some (.number 1.0) := by
    decide +kernel
  obtain ⟨out, out', row, row', value, hout, hout', hat, hat', hvalue, hvalue'⟩ :=
    hall config "Revenue" 1 2 first second (Nat.le_refl 1) hagree
  rw [hout, Except.toOption, Option.bind_some, hat, Option.bind_some] at hleft
  rw [hout', Except.toOption, Option.bind_some, hat', Option.bind_some] at hright
  cases (hleft.symm.trans (hvalue.trans (hvalue'.symm.trans hright)))

end

end Tabular.Metric

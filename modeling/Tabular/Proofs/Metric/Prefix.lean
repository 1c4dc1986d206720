import Tabular.Proofs.Metric.Written

/-!
# Metrics never look ahead

The values a metric has on the first rows of a dataset are its values on these rows alone:
every sequence it goes through commutes with `List.take`. Rows that are appended thus change no
value computed before, as long as they do not change what the metric's references mean
(`metric_prefix`).
-/
namespace Tabular

/-- The column references a metric of its kind reads. -/
def MetricConfig.references (config : MetricConfig) : List String :=
  if config.kind.comparesColumns then config.numerator?.toList ++ config.denominator?.toList
  else config.column?.toList

namespace Metric

/-! ## What is planned -/

theorem needed_eq_ok {config : MetricConfig} {field reference : String}
    {value : Option String} : needed config field value = .ok reference ↔
      value = some reference := by
  cases value with
  | none => exact ⟨fun h => (by cases h), fun h => (by cases h)⟩
  | some text => exact ⟨fun h => (by cases h; rfl), fun h => (by cases h; rfl)⟩

/-- Two datasets in which a metric's references mean the same columns give it the same inputs. -/
theorem inputs_eq_ok_congr {config : MetricConfig} {planned : Inputs} {first second : List String}
    (h : ∀ r ∈ config.references, resolve r first = resolve r second) :
    inputs config first = .ok planned ↔ inputs config second = .ok planned := by
  unfold inputs
  by_cases hblank : Text.isBlankText config.output
  · rw [if_pos hblank, if_pos hblank, throw_bind, throw_bind]
  rw [if_neg hblank, if_neg hblank]
  by_cases hkind : config.kind.comparesColumns
  · rw [MetricConfig.references, if_pos hkind] at h
    rw [if_pos hkind, if_pos hkind]
    simp only [bind_eq_ok, needed_eq_ok, require_eq_ok]
    refine exists_congr fun numerator => and_congr_right fun hn => ?_
    refine exists_congr fun denominator => and_congr_right fun hd => ?_
    rw [h numerator (by simp [hn]), h denominator (by simp [hd])]
  · rw [MetricConfig.references, if_neg hkind] at h
    rw [if_neg hkind, if_neg hkind]
    simp only [bind_eq_ok, needed_eq_ok, require_eq_ok]
    refine exists_congr fun column => and_congr_right fun hc => ?_
    rw [h column (by simp [hc])]

/-! ## Sequences -/

section
variable {α β : Type}

/-- Up to the end of the values, a value moved back stands as many places behind. -/
theorem getElem?_lagged {values : List (Option α)} {places i : Nat} (hi : i < values.length) :
    (lagged values places)[i]? = if i < places then some none else values[i - places]? := by
  unfold lagged
  by_cases hplace : i < places
  · rw [if_pos hplace, List.getElem?_append_left (by simp; omega), List.getElem?_replicate,
      if_pos (by omega)]
  · rw [if_neg hplace, List.getElem?_append_right (by simp; omega), List.length_replicate,
      Nat.min_eq_left (by omega)]

theorem take_zipWith_lagged (f : Option α → Option α → β) (values : List (Option α))
    (places n : Nat) : (values.zipWith f (lagged values places)).take n =
      (values.take n).zipWith f (lagged (values.take n) places) := by
  apply List.ext_getElem?
  intro i
  rw [List.getElem?_zipWith]
  by_cases hn : i < n
  · by_cases hi : i < values.length
    · have hi' : i < (values.take n).length := by simp; omega
      rw [List.getElem?_take_of_lt hn, List.getElem?_take_of_lt hn, List.getElem?_zipWith,
        getElem?_lagged hi, getElem?_lagged hi', List.getElem?_take_of_lt (by omega)]
    · have hlast : values.length ≤ i := Nat.not_lt.mp hi
      rw [List.getElem?_take_of_lt hn, List.getElem?_take_of_lt hn, List.getElem?_zipWith,
        List.getElem?_eq_none hlast]
  · have hlast : n ≤ i := Nat.not_lt.mp hn
    rw [List.getElem?_take_eq_none hlast, List.getElem?_take_eq_none hlast]

theorem take_runningTotals [Add α] (zero : α) (values : List (Option α)) (n : Nat) :
    (runningTotals zero values).take n = runningTotals zero (values.take n) := by
  suffices h : ∀ total, (runningTotals.go zero total values).take n =
      runningTotals.go zero total (values.take n) from h zero
  induction values generalizing n with
  | nil => intro total; simp [runningTotals.go]
  | cons v rest ih =>
    intro total
    cases n with
    | zero => rfl
    | succ n => exact congrArg (_ :: ·) (ih n _)

theorem take_movingAverages [Add α] [Sub α] (zero : α) (divide : α → Nat → α)
    (values : List (Option α)) (window n : Nat) :
    (movingAverages zero divide values window).take n =
      movingAverages zero divide (values.take n) window := by
  have hgo : ∀ (pairs : List (Option α × Option α)) (n : Nat) (sum : α) (count : Nat),
      (movingAverages.go divide sum count pairs).take n =
        movingAverages.go divide sum count (pairs.take n) := by
    intro pairs
    induction pairs with
    | nil => intro n sum count; simp [movingAverages.go]
    | cons pair rest ih =>
      intro n sum count
      cases n with
      | zero => rfl
      | succ n => exact congrArg (_ :: ·) (ih n _ _)
  rw [movingAverages, movingAverages, hgo]
  exact congrArg _ (take_zipWith_lagged Prod.mk values window n)

end

theorem take_ofSequence (kind : MetricKind) (values : List (Option Float))
    (window periods n : Nat) : (ofSequence kind values window periods).take n =
      ofSequence kind (values.take n) window periods := by
  unfold ofSequence
  split
  · rw [← List.map_take, take_runningTotals]
  · exact take_movingAverages ..
  · exact take_zipWith_lagged ..
  · exact take_zipWith_lagged ..
  · exact take_zipWith_lagged ..

theorem take_values (kind : MetricKind) (rows : Dataset) (planned : Inputs) (n : Nat) :
    (values kind rows planned).take n = values kind (rows.take n) planned := by
  cases planned with
  | pair numerator denominator => exact List.map_take.symm
  | sequence column window periods =>
    exact (take_ofSequence ..).trans (by rw [← List.map_take]; rfl)

end Metric

/-- If the references of a metric mean the same columns in a dataset and in the same with more
rows behind, the metric has values on both or, unless there are no rows, on neither, and what it
has written into the longer one is, up to where the shorter one ends, what it writes there. -/
theorem metric_prefix {rows extra : Dataset} {config : MetricConfig}
    (h : ∀ r ∈ config.references,
      resolve r (columns (rows ++ extra)) = resolve r (columns rows)) :
    (rows ≠ [] → ((∃ longer, Metric.apply (rows ++ extra) config = .ok longer) ↔
      ∃ out, Metric.apply rows config = .ok out)) ∧
    ∀ longer, Metric.apply (rows ++ extra) config = .ok longer →
      Metric.apply rows config = .ok (longer.take rows.length) := by
  by_cases hrows : rows = []
  · subst hrows
    exact ⟨fun hne => absurd rfl hne, fun longer _ => rfl⟩
  · have hmore : rows ++ extra ≠ [] := List.append_ne_nil_of_left_ne_nil hrows extra
    simp only [Metric.apply_eq_ok hrows, Metric.apply_eq_ok hmore, Metric.inputs_eq_ok_congr h]
    refine ⟨fun _ => ?_, ?_⟩
    · constructor
      · rintro ⟨longer, planned, hplanned, -⟩
        exact ⟨_, planned, hplanned, rfl⟩
      · rintro ⟨out, planned, hplanned, -⟩
        exact ⟨_, planned, hplanned, rfl⟩
    · rintro longer ⟨planned, hplanned, rfl⟩
      refine ⟨planned, hplanned, ?_⟩
      rw [List.take_zipWith, ← List.map_take, Metric.take_values, List.take_left]

/-- Two more rows, one of which lacks the column of a moving average and has a new one. -/
theorem metric_prefix_moving_average :
    let rows := [Row.ofList [("Revenue", .number 10.0)], Row.ofList [("Revenue", .text "$20")],
      Row.ofList [("Revenue", .null)]]
    let extra := [Row.ofList [("Cost", .number 1.0)], Row.ofList [("Revenue", .number 1e308)]]
    let config : MetricConfig :=
      { kind := .movingAverage, output := "Mean", column? := some " revenue", window? := some 2 }
    (∀ r ∈ config.references,
      resolve r (columns (rows ++ extra)) = resolve r (columns rows)) ∧
    ∃ longer, Metric.apply (rows ++ extra) config = .ok longer ∧
      Metric.apply rows config = .ok (longer.take 3) := by
  intro rows extra config
  have hreferences : ∀ r ∈ config.references,
      resolve r (columns (rows ++ extra)) = resolve r (columns rows) := by decide +kernel
  obtain ⟨hisOk, hprefix⟩ := metric_prefix hreferences
  have hout : ∃ out, Metric.apply rows config = .ok out := exists_eq_ok (by decide +kernel)
  obtain ⟨longer, hlonger⟩ := (hisOk (List.cons_ne_nil _ _)).mpr hout
  exact ⟨hreferences, longer, hlonger, hprefix longer hlonger⟩

end Tabular

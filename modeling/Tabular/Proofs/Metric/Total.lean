import Tabular.Proofs.Metric.Prefix
import Tabular.Proofs.Number.Value

/-!
# Running totals are sums

A running total starts from zero and adds zero for a row without a number, and a sum starts from
the negative zero and skips such a row. The two differ at most in the sign of a zero
(`Abreast`), which one number, added to both, either keeps or removes. So at every row, from the
first number on, the running total is the sum of the rows up to there (`runningTotal_eq_sum`).
-/
namespace Tabular.Metric
open Float.Model Float.Model.UnpackedFloat

/-- A running total and a sum of the same numbers: one double, or both of them a zero. -/
def Abreast (running sum : Float) : Prop := running = sum ∨ running = 0.0 ∧ sum = -0.0

section
variable {x y : Float}

/-! ## One number -/

theorem ofModel_pack_unpack (x : Float) : Float.ofModel (.pack x.toModel.unpack) = x :=
  Float.ofBits_toBits x

/-- Zero added to a double keeps it, but for the sign of a zero. -/
theorem abreast_add_zero (x : Float) : Abreast (x + 0.0) x := by
  have hpack := ofModel_pack_unpack x
  show Abreast (Float.ofModel (.pack (UnpackedFloat.add Format.binary64 x.toModel.unpack
    (.zero .positive)))) x
  cases hu : x.toModel.unpack with
  | zero s =>
    rw [hu] at hpack
    cases s with
    | positive => exact .inl hpack
    | negative => exact .inr ⟨by decide +kernel, hpack.symm.trans (by decide +kernel)⟩
  | _ =>
    rw [hu] at hpack
    exact .inl hpack

/-- Either zero is kept by one double only, the negative one by itself. -/
theorem abreast_zero_add (x : Float) : Abreast (0.0 + x) (-0.0 + x) := by
  show Abreast
    (Float.ofModel (.pack (UnpackedFloat.add Format.binary64 (.zero .positive) x.toModel.unpack)))
    (Float.ofModel (.pack (UnpackedFloat.add Format.binary64 (.zero .negative) x.toModel.unpack)))
  cases x.toModel.unpack with
  | zero s =>
    cases s with
    | positive => exact .inl rfl
    | negative => exact .inr ⟨by decide +kernel, by decide +kernel⟩
  | _ => exact .inl rfl

theorem Abreast.add (h : Abreast x y) (v : Float) : Abreast (x + v) (y + v) := by
  obtain rfl | ⟨rfl, rfl⟩ := h
  · exact .inl rfl
  · exact abreast_zero_add v

theorem Abreast.gap (h : Abreast x y) : Abreast (x + 0.0) y := by
  obtain rfl | ⟨rfl, rfl⟩ := h
  · exact abreast_add_zero x
  · exact .inr ⟨by decide +kernel, rfl⟩

theorem Abreast.sameNumber (h : Abreast x y) :
    SameNumber (Aggregate.finite? x) (Aggregate.finite? y) := by
  obtain rfl | ⟨rfl, rfl⟩ := h
  · unfold Aggregate.finite?
    by_cases hfinite : x.isFinite
    · rw [if_pos hfinite]
      exact (Number.beq_iff_exact_eq hfinite hfinite).mpr rfl
    · rw [if_neg hfinite]
      trivial
  · decide +kernel

/-! ## All numbers up to a row -/

section
variable {values : List (Option Float)}

/-- A running total at a place is what the values up to there add up to. -/
theorem getElem?_runningTotals (zero : Float) {i : Nat} (hi : i < values.length) :
    (runningTotals zero values)[i]? =
      some ((values.take (i + 1)).foldl (fun total v => total + v.getD zero) zero) := by
  suffices h : ∀ total, (runningTotals.go zero total values)[i]? =
      some ((values.take (i + 1)).foldl (fun total v => total + v.getD zero) total) from h zero
  induction values generalizing i with
  | nil => exact absurd hi (Nat.not_lt_zero i)
  | cons v rest ih =>
    intro total
    cases i with
    | zero => rfl
    | succ i => exact ih (Nat.lt_of_succ_lt_succ hi) _

theorem Abreast.foldl (h : Abreast x y) :
    Abreast (values.foldl (fun total v => total + v.getD 0.0) x)
      (Aggregate.total y values.reduceOption) := by
  induction values generalizing x y with
  | nil => exact h
  | cons v rest ih =>
    cases v with
    | none => exact ih h.gap
    | some v => exact ih (h.add v)

end

end

/-! ## Rows -/

section
variable {rows : Dataset} {column : String}

theorem ofRows_sum_take {i : Nat} (hi : i < Limits.linearRows) (p? : Option Float)
    (h : numbers (rows.take (i + 1)) column ≠ []) :
    Aggregate.ofRows (rows.take (i + 1)) column .sum p? =
      Aggregate.finite? (Aggregate.sum (numbers (rows.take (i + 1)) column)) := by
  have hceiling : i + 1 ≤ AggregateKind.sum.rowCeiling := hi
  have hscanned : (rows.take (i + 1)).take AggregateKind.sum.rowCeiling = rows.take (i + 1) := by
    rw [List.take_take, Nat.min_eq_right hceiling]
  rw [Aggregate.ofRows, hscanned]
  obtain ⟨head, rest, hvalues⟩ := List.exists_cons_of_ne_nil h
  rw [hvalues]
  rfl

theorem numbers_take (rows : Dataset) (column : String) (n : Nat) :
    numbers (rows.take n) column = ((rows.map (·.number? column)).take n).reduceOption := by
  rw [numbers, List.reduceOption, ← List.map_take, List.filterMap_map]
  rfl

end

/-- A running total is written into every row. It is the sum of the column over the rows up to
there, as soon as one of these has a number, and a row without a number carries the total before it
forward. -/
theorem runningTotal_eq_sum {rows : Dataset} {config : MetricConfig} {column : String}
    {window periods : Nat} (hkind : config.kind = .runningTotal)
    (hinputs : inputs config (columns rows) = .ok (.sequence column window periods)) :
    ∃ out totals, apply rows config = .ok out ∧ Writes rows config.output totals out ∧
      ∀ i, i < rows.length →
        (i < Limits.linearRows → (∃ row ∈ rows.take (i + 1), ∃ x, row.number? column = some x) →
          ∀ p?, SameNumber totals[i]?.join
            (Aggregate.ofRows (rows.take (i + 1)) column .sum p?)) ∧
        ∀ row, rows[i + 1]? = some row → row.number? column = none →
          SameNumber totals[i + 1]?.join totals[i]?.join := by
  by_cases hrows : rows = []
  · subst hrows
    exact ⟨[], [], rfl, ⟨rfl, rfl, fun i new h => by cases h⟩, fun i hi => absurd hi (by simp)⟩
  have happly := (apply_eq_ok hrows).mpr ⟨_, hinputs, rfl⟩
  obtain ⟨planned, hplanned, hwrites⟩ := apply_writes hrows happly
  obtain rfl : planned = .sequence column window periods :=
    Except.ok.inj (hplanned.symm.trans hinputs)
  refine ⟨_, _, happly, hwrites, fun i hi => ?_⟩
  have htotal : ∀ j < rows.length,
      ((values config.kind rows (.sequence column window periods)).map finite?)[j]?.join =
        Aggregate.finite? (((rows.map (·.number? column)).take (j + 1)).foldl
          (fun total v => total + v.getD 0.0) 0.0) := by
    intro j hj
    rw [hkind]
    show (((runningTotals 0.0 (rows.map (·.number? column))).map some).map finite?)[j]?.join = _
    rw [List.getElem?_map, List.getElem?_map, getElem?_runningTotals _ (by rwa [List.length_map])]
    rfl
  constructor
  · rintro hlinear ⟨row, hrow, x, hx⟩ p?
    have hnumbers : numbers (rows.take (i + 1)) column ≠ [] :=
      List.ne_nil_of_mem (List.mem_filterMap.mpr ⟨row, hrow, hx⟩)
    have hstart : Abreast 0.0 (-0.0) := .inr ⟨rfl, rfl⟩
    rw [htotal i hi, ofRows_sum_take hlinear p? hnumbers, numbers_take]
    exact hstart.foldl.sameNumber
  · intro row hrow hnone
    have hlast : (rows.map (·.number? column))[i + 1]? = some none := by
      rw [List.getElem?_map, hrow, Option.map_some, hnone]
    obtain ⟨hnext, -⟩ := List.getElem?_eq_some_iff.mp hrow
    rw [htotal (i + 1) hnext, htotal i hi, List.take_add_one, hlast, List.foldl_append]
    exact (abreast_add_zero _).sameNumber

/-- Losses up to zero, a row without an amount and one that makes the total overflow. The first
total is zero where the sum of the first row is the negative zero. -/
theorem runningTotal_eq_sum_overflow :
    let rows := [Row.ofList [("Loss", .number (-0.0))], Row.ofList [("Loss", .text "n/a")],
      Row.ofList [("Loss", .number 1e308)], Row.ofList [("Loss", .number 1e308)]]
    let config : MetricConfig := { kind := .runningTotal, output := "Sum", column? := some "loss" }
    ∃ out totals, apply rows config = .ok out ∧ Writes rows "Sum" totals out ∧
      SameNumber totals[0]?.join (some (-0.0)) ∧ SameNumber totals[1]?.join totals[0]?.join ∧
      SameNumber totals[2]?.join (some 1e308) ∧ SameNumber totals[3]?.join none := by
  intro rows config
  have hinputs : inputs config (columns rows) = .ok (.sequence "Loss" defaultWindow 1) :=
    toOption_eq_some.mp (by decide +kernel)
  obtain ⟨out, totals, happly, hwrites, htotals⟩ := runningTotal_eq_sum rfl hinputs
  have hnumber : ∀ i < 4, ∃ row ∈ rows.take (i + 1), ∃ x, row.number? "Loss" = some x := by
    intro i _
    exact ⟨_, List.mem_cons_self, -0.0, by decide +kernel⟩
  have hsum : ∀ i < 4, SameNumber totals[i]?.join
      (Aggregate.ofRows (rows.take (i + 1)) "Loss" .sum none) := by
    intro i hi
    exact (htotals i hi).1 (hi.trans (by decide)) (hnumber i hi) none
  refine ⟨out, totals, happly, hwrites, ?_, ?_, ?_, ?_⟩
  · have hfirst : Aggregate.ofRows (rows.take 1) "Loss" .sum none = some (-0.0) := by
      decide +kernel
    exact hfirst ▸ hsum 0 (by decide)
  · exact (htotals 0 (by decide)).2 (Row.ofList [("Loss", .text "n/a")]) rfl (by decide +kernel)
  · have hthird : Aggregate.ofRows (rows.take 3) "Loss" .sum none = some 1e308 := by
      decide +kernel
    exact hthird ▸ hsum 2 (by decide)
  · have hfourth : Aggregate.ofRows (rows.take 4) "Loss" .sum none = none := by
      decide +kernel
    exact hfourth ▸ hsum 3 (by decide)

end Tabular.Metric

import Mathlib
import Tabular.Proofs.Metric.Prefix

/-!
# Moving averages are means of their windows

A moving average carries a sum and a count from row to row: the value that enters the window is
added, and the one that leaves it is taken away. What is carried is the sum and the count of the
values present in the window, so with exact arithmetic the average is the mean of these, and a
value that leaves is always one that was counted (`movingAverages_eq_mean`).
-/
namespace Tabular.Metric

section
variable {α : Type}

/-- The last `window` of the first `n` values, or all of them where there are fewer. -/
def trailing (values : List (Option α)) (window n : Nat) : List (Option α) :=
  (values.take n).drop (n - window)

/-- The value that leaves the window when the one at place `n` enters it. -/
def leaving (values : List (Option α)) (window n : Nat) : Option α :=
  if n < window then none else values[n - window]?.join

section
variable {values : List (Option α)} {window n : Nat}

/-- Until the window is full, nothing leaves it. -/
theorem trailing_succ_of_lt (hn : n < values.length) (h : n < window) :
    trailing values window (n + 1) = trailing values window n ++ [values[n]] := by
  rw [trailing, trailing, Nat.sub_eq_zero_of_le h, Nat.sub_eq_zero_of_le (Nat.le_of_lt h),
    List.drop_zero, List.drop_zero, List.take_append_getElem hn]

/-- After that, each value that enters a window makes the first one leave. -/
theorem trailing_succ_of_le (hn : n < values.length) (h : window ≤ n) :
    values[n - window] :: trailing values window (n + 1) =
      trailing values window n ++ [values[n]] := by
  have hlast : n - window < (values.take (n + 1)).length := by simp; omega
  have hfirst : (values.take (n + 1))[n - window] = values[n - window] := by simp
  rw [trailing, trailing, Nat.succ_sub h, ← hfirst, List.getElem_cons_drop hlast,
    ← List.take_append_getElem hn, List.drop_append_of_le_length (by simp; omega)]

/-- With the value that leaves it, a window holds what it held before and what enters it. -/
theorem trailing_succ (window : Nat) (hn : n < values.length) :
    (leaving values window n).toList ++ (trailing values window (n + 1)).reduceOption =
      (trailing values window n).reduceOption ++ values[n].toList := by
  by_cases h : n < window
  · rw [trailing_succ_of_lt hn h, leaving, if_pos h, List.reduceOption_append,
      List.reduceOption_singleton]
    rfl
  · have hle : window ≤ n := Nat.not_lt.mp h
    rw [leaving, if_neg h, List.getElem?_eq_getElem (by omega), Option.join_some,
      ← List.reduceOption_singleton (values[n]), ← List.reduceOption_append,
      ← trailing_succ_of_le hn hle, ← List.reduceOption_singleton (values[n - window]),
      ← List.reduceOption_append]
    rfl

theorem getElem?_zip_lagged (hn : n < values.length) :
    (values.zip (lagged values window))[n]? = some (values[n], leaving values window n) := by
  rw [List.getElem?_zip_eq_some, getElem?_lagged hn, leaving, List.getElem?_eq_getElem hn]
  refine ⟨rfl, ?_⟩
  split
  · rfl
  · rw [List.getElem?_eq_getElem (by omega), Option.join_some]

end

/-! ## What is carried -/

/-- A sum and a count with one more value. -/
def enter [Add α] (carried : α × Nat) : Option α → α × Nat
  | some v => (carried.1 + v, carried.2 + 1)
  | none => carried

/-- A sum and a count with one value less. -/
def leave [Sub α] (carried : α × Nat) : Option α → α × Nat
  | some v => (carried.1 - v, carried.2 - 1)
  | none => carried

theorem count_enter [Add α] (carried : α × Nat) (v : Option α) :
    (enter carried v).2 = carried.2 + v.toList.length := by
  cases v <;> rfl

theorem count_leave [Sub α] (carried : α × Nat) (v : Option α) :
    (leave carried v).2 = carried.2 - v.toList.length := by
  cases v <;> rfl

variable [Add α] [Sub α]

/-- The sum and the count that a moving average carries behind the first `n` values. -/
def carried (zero : α) (values : List (Option α)) (window : Nat) : Nat → α × Nat
  | 0 => (zero, 0)
  | n + 1 => leave (enter (carried zero values window n) values[n]?.join) (leaving values window n)

/-- The mean of a sum and a count; without a value there is none. -/
def quotient (divide : α → Nat → α) (carried : α × Nat) : Option α :=
  if carried.2 = 0 then none else some (divide carried.1 carried.2)

variable {zero : α} {divide : α → Nat → α} {values : List (Option α)} {window n : Nat}

theorem carried_succ (hn : n < values.length) : carried zero values window (n + 1) =
    leave (enter (carried zero values window n) values[n]) (leaving values window n) := by
  rw [carried, List.getElem?_eq_getElem hn, Option.join_some]

theorem go_cons (carried : α × Nat) (entering leaving : Option α)
    (rest : List (Option α × Option α)) :
    movingAverages.go divide carried.1 carried.2 ((entering, leaving) :: rest) =
      quotient divide (leave (enter carried entering) leaving) ::
        movingAverages.go divide (leave (enter carried entering) leaving).1
          (leave (enter carried entering) leaving).2 rest := by
  cases entering <;> cases leaving <;> rfl

/-- Behind `n` values the averages go on from what is carried there. -/
theorem go_carried (hn : n < values.length) :
    movingAverages.go divide (carried zero values window n).1 (carried zero values window n).2
        ((values.zip (lagged values window)).drop n) =
      quotient divide (carried zero values window (n + 1)) ::
        movingAverages.go divide (carried zero values window (n + 1)).1
          (carried zero values window (n + 1)).2
          ((values.zip (lagged values window)).drop (n + 1)) := by
  rw [List.drop_eq_getElem?_toList_append, getElem?_zip_lagged hn, carried_succ hn]
  exact go_cons ..

/-- The average at a place is made of what is carried behind it. -/
theorem getElem?_movingAverages (hn : n < values.length) :
    (movingAverages zero divide values window)[n]? =
      some (quotient divide (carried zero values window (n + 1))) := by
  -- The run may start behind any of the values, with what is carried there.
  suffices hrun : ∀ k start, start + k < values.length →
      (movingAverages.go divide (carried zero values window start).1
        (carried zero values window start).2
        ((values.zip (lagged values window)).drop start))[k]? =
      some (quotient divide (carried zero values window (start + k + 1))) by
    have hall := hrun n 0 (by omega)
    rwa [List.drop_zero, Nat.zero_add] at hall
  intro k
  induction k with
  | zero =>
    intro start hstart
    rw [go_carried (Nat.lt_of_add_right_lt hstart)]
    rfl
  | succ k ih =>
    intro start hstart
    rw [go_carried (by omega), List.getElem?_cons_succ, ih (start + 1) (by omega)]
    congr 4
    omega

/-! ## Sums and counts -/

/-- The count that is carried is the number of values present in the window. -/
theorem count_carried (hn : n ≤ values.length) : (carried zero values window n).2 =
    (trailing values window n).reduceOption.length := by
  induction n with
  | zero => simp [carried, trailing, List.reduceOption]
  | succ n ih =>
    have hsplit := congrArg List.length (trailing_succ window hn)
    rw [List.length_append, List.length_append, ← ih (Nat.le_of_succ_le hn)] at hsplit
    rw [carried_succ hn, count_leave, count_enter, ← hsplit, Nat.add_sub_cancel_left]

/-- A value that leaves the window is one of those that were counted. -/
theorem count_before_leave (hn : n < values.length) (h : (leaving values window n).isSome) :
    0 < (enter (carried zero values window n) values[n]).2 := by
  have hcount : (carried zero values window n).2 = _ := count_carried (Nat.le_of_lt hn)
  have hsplit := congrArg List.length (trailing_succ window hn)
  rw [List.length_append, List.length_append, ← hcount] at hsplit
  obtain ⟨v, hv⟩ := Option.isSome_iff_exists.mp h
  rw [count_enter, ← hsplit, hv]
  exact Nat.lt_of_lt_of_le Nat.one_pos (Nat.le_add_right _ _)

end

theorem sum_enter (carried : ℚ × Nat) (v : Option ℚ) :
    (enter carried v).1 = carried.1 + v.toList.sum := by
  cases v <;> simp [enter]

theorem sum_leave (carried : ℚ × Nat) (v : Option ℚ) :
    (leave carried v).1 = carried.1 - v.toList.sum := by
  cases v <;> simp [leave]

/-- The sum that is carried is the sum of the values present in the window. -/
theorem sum_carried {values : List (Option ℚ)} {window n : Nat} (hn : n ≤ values.length) :
    (carried 0 values window n).1 = (trailing values window n).reduceOption.sum := by
  induction n with
  | zero => simp [carried, trailing, List.reduceOption]
  | succ n ih =>
    have hsplit := congrArg List.sum (trailing_succ window hn)
    rw [List.sum_append, List.sum_append, ← ih (Nat.le_of_succ_le hn)] at hsplit
    rw [carried_succ hn, sum_leave, sum_enter, ← hsplit, add_sub_cancel_left]

/-- With exact arithmetic the moving average at a place is the mean of the values present in the
window that ends there, and null where there is none. It is made of a sum and a count that are
carried along: the count is how many values are present, and the one that leaves was counted. -/
theorem movingAverages_eq_mean (values : List (Option ℚ)) (window : Nat) {i : Nat}
    (hi : i < values.length) :
    let seen := (trailing values window (i + 1)).reduceOption
    let mean : ℚ → Nat → ℚ := fun sum count => sum / count
    (movingAverages 0 mean values window)[i]? =
        some (if seen = [] then none else some (seen.sum / seen.length)) ∧
      (movingAverages 0 mean values window)[i]? =
        some (quotient mean (carried 0 values window (i + 1))) ∧
      (carried 0 values window (i + 1)).2 = seen.length ∧
      ((leaving values window i).isSome → 0 < (enter (carried 0 values window i) values[i]).2) := by
  intro seen mean
  have hcount : (carried 0 values window (i + 1)).2 = seen.length := count_carried hi
  have hmean : (movingAverages 0 mean values window)[i]? = _ := getElem?_movingAverages hi
  refine ⟨?_, hmean, hcount, count_before_leave hi⟩
  rw [hmean, quotient, hcount, sum_carried hi]
  simp only [List.length_eq_zero_iff]
  rfl

/-- Windows of three past a gap: the first holds one value yet, and the next, which that value
has left, none. -/
theorem movingAverages_eq_mean_past_gap :
    let values : List (Option ℚ) := [some (1 / 3), some 2, some 5, none, none, none]
    let mean : ℚ → Nat → ℚ := fun sum count => sum / count
    (4 < values.length ∧ (movingAverages 0 mean values 3)[4]? = some (some 5)) ∧
      5 < values.length ∧ (movingAverages 0 mean values 3)[5]? = some none ∧
      (leaving values 3 5).isSome ∧ 0 < (enter (carried 0 values 3 5) values[5]).2 := by
  intro values mean
  have hfifth := movingAverages_eq_mean values 3 (i := 4) (by decide)
  have hsixth := movingAverages_eq_mean values 3 (i := 5) (by decide)
  have hseen : (trailing values 3 5).reduceOption = [5] := rfl
  have hleaving : (leaving values 3 5).isSome := rfl
  refine ⟨⟨by decide, hfifth.1.trans ?_⟩, by decide, hsixth.1, hleaving, hsixth.2.2.2 hleaving⟩
  simp [hseen]

end Tabular.Metric

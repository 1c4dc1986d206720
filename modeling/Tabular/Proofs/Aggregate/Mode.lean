import Tabular.Proofs.Aggregate.Order
import Tabular.Proofs.Occurrences

/-!
# The most frequent value

The table of counts has one entry for each different value, in the order of first occurrences: the
value as it stands there, and how often it occurs (`Counts`). Its first entry with the greatest
count leads, so the mode is the earliest of the most frequent values (`mode_earliest`).
-/
namespace Tabular

/-- Finite doubles are counted together exactly if they are the same number. -/
theorem Number.countingKey_eq_iff {x y : Float} (hx : x.isFinite) (hy : y.isFinite) :
    Number.countingKey x = Number.countingKey y ↔ x == y := by
  have hnonzero : ∀ {a : Float}, Number.exact a ≠ 0 → ¬ IsNegativeZero a ∧ a ≠ 0.0 := by
    intro a ha
    refine ⟨fun hzero => ha (exact_of_isNegativeZero hzero), ?_⟩
    rintro rfl
    exact ha exact_zero
  simp only [countingKey, beq_iff_exact_eq hx hy, beq_iff_exact_eq hx isFinite_zero,
    beq_iff_exact_eq hy isFinite_zero, exact_zero]
  by_cases hx0 : Number.exact x = 0
  · by_cases hy0 : Number.exact y = 0
    · rw [if_pos hx0, if_pos hy0, hx0, hy0]
      exact iff_of_true rfl rfl
    · rw [if_pos hx0, if_neg hy0, Float.toBits_inj, hx0]
      exact iff_of_false (Ne.symm (hnonzero hy0).2) (Ne.symm hy0)
  · by_cases hy0 : Number.exact y = 0
    · rw [if_neg hx0, if_pos hy0, Float.toBits_inj, hy0]
      exact iff_of_false (hnonzero hx0).2 hx0
    · rw [if_neg hx0, if_neg hy0, Float.toBits_inj]
      exact ⟨congrArg exact, eq_of_exact_eq hx hy (hnonzero hx0).1 (hnonzero hy0).1⟩

namespace Aggregate

/-- How often a number occurs among values. Both zeros are one number. -/
def occurrences (values : List Float) (v : Float) : Nat := values.countP (· == v)

/-- The earliest of the most frequent values, as it is written where it occurs first. -/
structure EarliestMode (values : List Float) (v : Float) : Prop where
  first : values.find? (· == v) = some v
  most : ∀ w ∈ values, occurrences values w ≤ occurrences values v
  earliest : ∀ w ∈ values, occurrences values w = occurrences values v → ¬ w == v →
    values.findIdx (· == v) < values.findIdx (· == w)

/-! ## The table of counts -/

/-- The table lists the different values in the order in which they first occur, each as it stands
there and with the number of its occurrences. -/
structure Counts (values : List Float) (table : List (Float × Nat)) : Prop where
  keys : keys table = (values.map Number.countingKey).eraseDups
  entry : ∀ e ∈ table,
    values.find? (fun v => Number.countingKey v == Number.countingKey e.1) = some e.1 ∧
      values.countP (fun v => Number.countingKey v == Number.countingKey e.1) = e.2

section
variable {values : List Float} {table : List (Float × Nat)} {v : Float} {e : Float × Nat}

/-- One occurrence more is counted in one entry, a new one if there is none for its value. -/
theorem mem_bump (hnodup : (keys table).Nodup) (h : e ∈ bump v table) :
    (e ∈ table ∧ Number.countingKey e.1 ≠ Number.countingKey v) ∨
    (∃ n, (e.1, n) ∈ table ∧ Number.countingKey e.1 = Number.countingKey v ∧ e.2 = n + 1) ∨
    (Number.countingKey v ∉ keys table ∧ e = (v, 1)) := by
  induction table with
  | nil => exact .inr (.inr ⟨List.not_mem_nil, List.mem_singleton.mp h⟩)
  | cons entry rest ih =>
    obtain ⟨u, n⟩ := entry
    obtain ⟨hu, hrest⟩ := List.nodup_cons.mp hnodup
    unfold bump at h
    by_cases hkey : Number.countingKey u = Number.countingKey v
    · rw [if_pos hkey] at h
      obtain rfl | h := List.mem_cons.mp h
      · exact .inr (.inl ⟨n, List.mem_cons_self, hkey, rfl⟩)
      · refine .inl ⟨List.mem_cons_of_mem _ h, fun he => hu (List.mem_map.mpr ⟨e, h, ?_⟩)⟩
        exact he.trans hkey.symm
    · rw [if_neg hkey] at h
      obtain rfl | h := List.mem_cons.mp h
      · exact .inl ⟨List.mem_cons_self, hkey⟩
      · obtain ⟨hold, hne⟩ | ⟨n, hold, he⟩ | ⟨hnew, he⟩ := ih hrest h
        · exact .inl ⟨List.mem_cons_of_mem _ hold, hne⟩
        · exact .inr (.inl ⟨n, List.mem_cons_of_mem _ hold, he⟩)
        · refine .inr (.inr ⟨fun hmem => ?_, he⟩)
          exact (List.mem_cons.mp hmem).elim (fun he => hkey he.symm) hnew

theorem Counts.nodup (h : Counts values table) : (Aggregate.keys table).Nodup := by
  rw [h.keys]
  exact (firstOccurrences_eraseDups _).nodup

/-- Counting goes on with one value more. -/
theorem Counts.bump (h : Counts values table) (v : Float) :
    Counts (values ++ [v]) (Aggregate.bump v table) where
  keys := by
    rw [keys_bump, h.keys, List.map_append, List.map_singleton, eraseDups_concat]
    simp only [List.mem_eraseDups]
  entry e he := by
    rw [List.find?_append, List.countP_append]
    obtain ⟨hold, hne⟩ | ⟨n, hold, hkey, hn⟩ | ⟨hnew, rfl⟩ := mem_bump h.nodup he
    · obtain ⟨hfirst, hcount⟩ := h.entry e hold
      rw [hfirst, hcount, Option.some_or, List.countP_singleton,
        if_neg (by simpa using Ne.symm hne)]
      exact ⟨rfl, rfl⟩
    · obtain ⟨hfirst, hcount⟩ := h.entry _ hold
      rw [hfirst, hcount, hn, Option.some_or, List.countP_singleton,
        if_pos (by simpa using hkey.symm)]
      exact ⟨rfl, rfl⟩
    · have hnone : ∀ u ∈ values, ¬ (Number.countingKey u == Number.countingKey v) = true := by
        intro u hu hkey
        refine hnew ?_
        rw [h.keys, List.mem_eraseDups, ← beq_iff_eq.mp hkey]
        exact List.mem_map_of_mem hu
      rw [List.find?_eq_none.mpr hnone, List.countP_eq_zero.mpr hnone, Option.none_or]
      simp

theorem counts_tally (values : List Float) : Counts values (tally values) := by
  induction values using List.reverseRecOn with
  | nil => exact ⟨rfl, fun e he => absurd he List.not_mem_nil⟩
  | append_singleton values v ih =>
    rw [tally, List.foldl_append]
    exact ih.bump v

/-! ## The leader -/

/-- Later entries take the lead only by a greater count. -/
theorem leader_eq_some {best : Float × Nat} (h : leader table = some best) :
    ∃ before after, table = before ++ best :: after ∧ (∀ e ∈ before, e.2 < best.2) ∧
      ∀ e ∈ after, e.2 ≤ best.2 := by
  cases table with
  | nil => cases h
  | cons entry rest =>
    cases h
    induction rest using List.reverseRecOn with
    | nil => exact ⟨[], [], rfl, List.forall_mem_nil _, List.forall_mem_nil _⟩
    | append_singleton rest e ih =>
      obtain ⟨before, after, htable, hbefore, hafter⟩ := ih
      rw [List.foldl_append, List.foldl_cons, List.foldl_nil, ← List.cons_append, htable]
      generalize rest.foldl _ entry = best at *
      by_cases hlt : best.2 < e.2
      · rw [if_pos hlt]
        refine ⟨before ++ best :: after, [], rfl, ?_, List.forall_mem_nil _⟩
        intro earlier he
        obtain he | he := List.mem_append.mp he
        · exact (hbefore earlier he).trans hlt
        · obtain rfl | he := List.mem_cons.mp he
          · exact hlt
          · exact (hafter earlier he).trans_lt hlt
      · rw [if_neg hlt]
        refine ⟨before, after ++ [e], by simp, hbefore, ?_⟩
        intro later he
        obtain he | he := List.mem_append.mp he
        · exact hafter later he
        · rw [List.mem_singleton.mp he]
          exact Nat.not_lt.mp hlt

theorem leader_isSome (h : table ≠ []) : ∃ best, leader table = some best := by
  obtain ⟨entry, rest, rfl⟩ := List.exists_cons_of_ne_nil h
  exact ⟨_, rfl⟩

end

/-! ## The mode -/

section
variable {values : List Float}

/-- Among finite values, those that are counted together are those that are the same number. -/
theorem countingKey_beq (hfinite : ∀ v ∈ values, v.isFinite) {v : Float} (hv : v.isFinite) :
    ∀ u ∈ values, (Number.countingKey u == Number.countingKey v) = (u == v) := by
  intro u hu
  rw [Bool.eq_iff_iff, beq_iff_eq]
  exact Number.countingKey_eq_iff (hfinite u hu) hv

theorem findIdx_congr {α : Type} {p q : α → Bool} {l : List α} (h : ∀ a ∈ l, p a = q a) :
    l.findIdx p = l.findIdx q :=
  Nat.le_antisymm (List.findIdx_le_findIdx fun a ha hq => (h a ha).trans hq)
    (List.findIdx_le_findIdx fun a ha hp => (h a ha).symm.trans hp)

/-- The leader of the counts is the earliest mode. -/
theorem Counts.earliestMode {table : List (Float × Nat)} (h : Counts values table)
    (hfinite : ∀ v ∈ values, v.isFinite) {best : Float × Nat} (hbest : leader table = some best) :
    best.1 ∈ values ∧ EarliestMode values best.1 := by
  obtain ⟨before, after, htable, hbefore, hafter⟩ := leader_eq_some hbest
  have hmem : best ∈ table := by simp [htable]
  obtain ⟨hfirst, hcount⟩ := h.entry best hmem
  have hvalue := List.mem_of_find?_eq_some hfirst
  have hsame := countingKey_beq hfinite (hfinite _ hvalue)
  rw [List.find?_congr hsame] at hfirst
  -- Every value has an entry, with the number of its occurrences.
  have hentry : ∀ w ∈ values, ∃ e ∈ table, Number.countingKey e.1 = Number.countingKey w ∧
      occurrences values w = e.2 := by
    intro w hw
    have hkey : Number.countingKey w ∈ Aggregate.keys table := by
      rw [h.keys, List.mem_eraseDups]
      exact List.mem_map_of_mem hw
    obtain ⟨e, he, hkey⟩ := List.mem_map.mp hkey
    refine ⟨e, he, hkey, ?_⟩
    rw [← (h.entry e he).2, hkey]
    exact List.countP_congr fun u hu => by rw [countingKey_beq hfinite (hfinite w hw) u hu]
  have hoccurs : occurrences values best.1 = best.2 := by
    rw [← hcount]
    exact List.countP_congr fun u hu => by rw [hsame u hu]
  have hplace : ∀ w ∈ values,
      (values.map Number.countingKey).idxOf (Number.countingKey w) = values.findIdx (· == w) := by
    intro w hw
    rw [List.idxOf, List.findIdx_map]
    exact findIdx_congr (countingKey_beq hfinite (hfinite w hw))
  refine ⟨hvalue, hfirst, fun w hw => ?_, fun w hw hequal hne => ?_⟩
  · obtain ⟨e, he, -, hn⟩ := hentry w hw
    rw [hn, hoccurs]
    rw [htable, List.mem_append, List.mem_cons] at he
    obtain he | rfl | he := he
    · exact Nat.le_of_lt (hbefore e he)
    · exact Nat.le_refl _
    · exact hafter e he
  · obtain ⟨e, he, hkey, hn⟩ := hentry w hw
    rw [hn, hoccurs] at hequal
    -- An entry with the same count stands behind the leader, so its value occurs later.
    have hlater : e ∈ after := by
      rw [htable, List.mem_append, List.mem_cons] at he
      obtain he | rfl | he := he
      · exact absurd hequal (Nat.ne_of_lt (hbefore e he))
      · have hequiv := Number.countingKey_eq_iff (hfinite w hw) (hfinite _ hvalue)
        exact absurd (hequiv.mp hkey.symm) hne
      · exact he
    have horder := (firstOccurrences_eraseDups (values.map Number.countingKey)).order
    rw [← h.keys, htable, Aggregate.keys, List.map_append, List.map_cons] at horder
    have hafter := (List.pairwise_cons.mp (List.pairwise_append.mp horder).2.1).1
    rw [← hplace w hw, ← hplace _ hvalue, ← hkey]
    exact hafter _ (List.mem_map_of_mem hlater)

/-- There is at most one earliest mode. -/
theorem EarliestMode.unique (hfinite : ∀ v ∈ values, v.isFinite) {v w : Float}
    (hv : EarliestMode values v) (hw : EarliestMode values w) : v = w := by
  have hmemv := List.mem_of_find?_eq_some hv.first
  have hmemw := List.mem_of_find?_eq_some hw.first
  have hequal := Nat.le_antisymm (hv.most w hmemw) (hw.most v hmemv)
  have hbeq := Number.beq_iff_exact_eq (hfinite v hmemv) (hfinite w hmemw)
  have hbeq' := Number.beq_iff_exact_eq (hfinite w hmemw) (hfinite v hmemv)
  by_cases h : Number.exact v = Number.exact w
  · have hsame : values.find? (· == v) = values.find? (· == w) := by
      refine List.find?_congr fun u hu => ?_
      rw [Bool.eq_iff_iff, Number.beq_iff_exact_eq (hfinite u hu) (hfinite v hmemv),
        Number.beq_iff_exact_eq (hfinite u hu) (hfinite w hmemw), h]
    rw [hv.first, hw.first] at hsame
    exact Option.some.inj hsame
  · have hlt := hv.earliest w hmemw hequal (mt hbeq'.mp (Ne.symm h))
    have hgt := hw.earliest v hmemv hequal.symm (mt hbeq.mp h)
    omega

end

/-- Of finite values, of which there are some, the mode is the earliest of the most frequent ones,
as it is written where it occurs first. There is only one such value, and the aggregate of the
values is that one. -/
theorem mode_earliest {values : List Float} (hne : values ≠ [])
    (hfinite : ∀ v ∈ values, v.isFinite) : ∃ v ∈ values, EarliestMode values v ∧
      mode values = some v ∧ (∀ p?, ofValues values .mode p? = some v) ∧
      ∀ w, EarliestMode values w → w = v := by
  have hcounts := counts_tally values
  have htable : tally values ≠ [] := by
    intro hempty
    have hkeys := hcounts.keys
    rw [hempty] at hkeys
    obtain ⟨v, rest, rfl⟩ := List.exists_cons_of_ne_nil hne
    have hmem : Number.countingKey v ∈ ((v :: rest).map Number.countingKey).eraseDups :=
      List.mem_eraseDups.mpr List.mem_cons_self
    rw [← hkeys] at hmem
    exact List.not_mem_nil hmem
  obtain ⟨best, hbest⟩ := leader_isSome htable
  obtain ⟨hvalue, hmode⟩ := hcounts.earliestMode hfinite hbest
  have hrun : mode values = some best.1 := by rw [mode, hbest, Option.map_some]
  refine ⟨best.1, hvalue, hmode, hrun, fun p? => ?_, fun w hw => hw.unique hfinite hmode⟩
  obtain ⟨head, rest, rfl⟩ := List.exists_cons_of_ne_nil hne
  show (mode (head :: rest)).bind finite? = some best.1
  rw [hrun, Option.bind_some, finite?, if_pos (hfinite _ hvalue)]

/-- Two numbers of three occur equally often; one is a zero of both signs, first the negative. -/
theorem mode_earliest_zeros :
    let values := [7.0, -0.0, 5.0, 0.0, 5.0]
    EarliestMode values (-0.0) ∧ ofValues values .mode none = some (-0.0) := by
  intro values
  have hfinite : ∀ v ∈ values, v.isFinite := by decide +kernel
  obtain ⟨v, -, hmode, hrun, hvalue, -⟩ := mode_earliest (List.cons_ne_nil _ _) hfinite
  have hzero : mode values = some (-0.0) := by decide +kernel
  obtain rfl := Option.some.inj (hzero.symm.trans hrun)
  exact ⟨hmode, hvalue none⟩

end Aggregate
end Tabular

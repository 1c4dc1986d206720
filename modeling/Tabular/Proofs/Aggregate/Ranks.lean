import Mathlib.Data.Nat.PSub
import Tabular.Proofs.Aggregate.Order
import Tabular.Proofs.Aggregate.Percentile
import Tabular.Proofs.Number.Overflow
import Tabular.Proofs.Occurrences

/-!
# Ranks that are in range

Values are read by rank in a percentile and a median, and entries by place in counting for the
mode. The checked aggregates here read a list only where it has an entry and answer nothing
otherwise, and they always answer what the aggregates do (`ranks_in_range`). For a percentile this
rests on rounding: the share that it takes of the last rank is a double between zero and one, and
so the position is between zero and that rank.
-/
namespace Tabular.Aggregate

/-! ## The position of a percentile -/

/-- Where a percentile is among sorted values, in ranks. -/
def position (p : Float) (last : ℕ) : Float := clampPercentile p / 100.0 * Float.ofNat last

/-- The ranks on either side of a position are in a list. -/
structure RanksWithin (length : ℕ) (x : Float) : Prop where
  finite : x.isFinite
  lower : ((rankBounds x).1 : ℤ) = ⌊Number.exact x⌋
  upper : ((rankBounds x).2 : ℤ) = ⌈Number.exact x⌉
  ordered : (rankBounds x).1 ≤ (rankBounds x).2
  near : (rankBounds x).2 - (rankBounds x).1 ≤ 1
  last : (rankBounds x).2 < length

section
variable {p x : Float} {n : ℕ}

theorem exact_hundred : Number.exact 100.0 = 100 := by decide +kernel

/-- What is neither NaN nor out of range on either side is a finite double. -/
theorem isFinite_of_in_range (hnan : ¬ p.isNaN) (hlow : ¬ p < 0.0) (hhigh : ¬ 100.0 < p) :
    p.isFinite := by
  cases hp : Number.parts? p with
  | some parts => exact Number.isFinite_of_parts hp
  | none =>
    obtain rfl | rfl | rfl := Number.special_of_parts?_eq_none hp
    · exact absurd (by decide +kernel) hhigh
    · exact absurd (by decide +kernel) hlow
    · exact absurd (by decide +kernel) hnan

theorem clampPercentile_bounds (p : Float) : (clampPercentile p).isFinite ∧
    0 ≤ Number.exact (clampPercentile p) ∧ Number.exact (clampPercentile p) ≤ 100 := by
  unfold clampPercentile
  split
  · decide +kernel
  rename_i hnan
  split
  · decide +kernel
  rename_i hlow
  split
  · decide +kernel
  rename_i hhigh
  have hfinite := isFinite_of_in_range hnan hlow hhigh
  rw [Number.lt_iff_exact_lt hfinite Number.isFinite_zero, Number.exact_zero] at hlow
  rw [Number.lt_iff_exact_lt rfl hfinite, exact_hundred] at hhigh
  exact ⟨hfinite, not_lt.mp hlow, not_lt.mp hhigh⟩

/-- The share of the last rank that a percentile takes. -/
theorem share_bounds (p : Float) : (clampPercentile p / 100.0).isFinite ∧
    0 ≤ Number.exact (clampPercentile p / 100.0) ∧
    Number.exact (clampPercentile p / 100.0) ≤ 1 := by
  obtain ⟨hfinite, hlow, hhigh⟩ := clampPercentile_bounds p
  have hone : Number.exact 1.0 = 1 := by decide +kernel
  have hresult := Number.isResult_div (y := 100.0) hfinite rfl (by rw [exact_hundred]; norm_num)
  rw [exact_hundred] at hresult
  rw [← hone]
  refine hresult.between rfl (div_nonneg hlow (by norm_num)) ?_
  rw [hone]
  exact div_le_one_of_le₀ hhigh (by norm_num)

theorem position_bounds (p : Float) (hn : n < 2 ^ 53) : (position p n).isFinite ∧
    0 ≤ Number.exact (position p n) ∧ Number.exact (position p n) ≤ n := by
  obtain ⟨hfinite, hlow, hhigh⟩ := share_bounds p
  have hlast := Number.isFinite_ofNat hn
  have hresult := Number.isResult_mul hfinite hlast
  have hbetween := hresult.between hlast
  rw [Number.exact_ofNat hn] at hbetween
  exact hbetween (mul_nonneg hlow n.cast_nonneg) (mul_le_of_le_one_left n.cast_nonneg hhigh)

/-- The ranks around a position are its floor and its ceiling. -/
theorem rankBounds_eq (hx : x.isFinite) (hnonneg : 0 ≤ Number.exact x) :
    rankBounds x = (⌊Number.exact x⌋₊, ⌈Number.exact x⌉₊) := by
  have hwhole := Number.isWhole_iff hx
  rw [rankBounds, floorRank_eq hx]
  rw [abs_of_nonneg hnonneg] at hwhole ⊢
  congr 1
  split
  · rename_i h
    rw [← hwhole.mp h, Nat.ceil_natCast, Nat.floor_natCast]
  · rename_i h
    refine (Nat.le_antisymm (Nat.ceil_le_floor_add_one _) ?_).symm
    have hne : (⌊Number.exact x⌋₊ : ℚ) ≠ Number.exact x := mt hwhole.mpr h
    exact Nat.lt_ceil.mpr ((Nat.floor_le hnonneg).lt_of_ne hne)

/-- Of as many values as a process can address, a percentile takes ranks that there are. -/
theorem ranksWithin_position (p : Float) (hpos : 0 < n) (hn : n ≤ 2 ^ 53) :
    RanksWithin n (position p (n - 1)) := by
  obtain ⟨hfinite, hlow, hhigh⟩ := position_bounds p (n := n - 1) (by omega)
  have hbounds := rankBounds_eq hfinite hlow
  refine ⟨hfinite, ?_, ?_, ?_, ?_, ?_⟩ <;> rw [hbounds]
  · exact Int.natCast_floor_eq_floor hlow
  · exact Int.natCast_ceil_eq_ceil (by linarith)
  · exact Nat.floor_le_ceil _
  · have hceil := Nat.ceil_le_floor_add_one (Number.exact (position p (n - 1)))
    show ⌈_⌉₊ - ⌊_⌋₊ ≤ 1
    omega
  · have hceil : ⌈Number.exact (position p (n - 1))⌉₊ ≤ n - 1 := Nat.ceil_le.mpr hhigh
    show ⌈_⌉₊ < n
    omega

/-- Of more values the last rank may be rounded up, and then the greatest value is past the end. -/
example : let n := 2 ^ 53 + 4
    (rankBounds (position 100.0 (n - 1))).2 = n := by decide +kernel

end

/-! ## Reading by rank -/

/-- The median, if the ranks that it reads are there. -/
def median? (values : List Float) : Option Float :=
  let ranked := sorted values
  let middle := values.length / 2
  if values.length % 2 = 0 then do
    let before ← middle.ppred
    return ((← ranked[before]?) + (← ranked[middle]?)) / 2.0
  else ranked[middle]?

/-- A percentile, if the ranks that it reads are there. -/
def percentile? (values : List Float) (p : Float) : Option Float :=
  let ranked := sorted values
  if values.length = 1 then ranked[0]?
  else do
    let last ← values.length.ppred
    let (lower, upper) := rankBounds (position p last)
    let weight := position p last - Float.ofNat lower
    return (← ranked[lower]?) + ((← ranked[upper]?) - (← ranked[lower]?)) * weight

section
variable {values : List Float} {n : ℕ}

theorem getElem?_sorted (h : n < values.length) :
    (sorted values)[n]? = some (rank (sorted values) n) := by
  have hlength : n < (sorted values).length := by rwa [(sorted_perm values).length_eq]
  rw [rank, List.getD_eq_getElem _ _ hlength, List.getElem?_eq_getElem hlength]

theorem ppred_of_pos (h : 0 < n) : n.ppred = some (n - 1) := Nat.ppred_eq_some.mpr (by omega)

theorem median?_eq (hne : values ≠ []) : median? values = some (median values) := by
  have hpos := List.length_pos_iff.mpr hne
  rw [median?, median]
  split
  · have hbefore : values.length / 2 - 1 < values.length := by omega
    have hmiddle : values.length / 2 < values.length := by omega
    rw [ppred_of_pos (by omega)]
    simp only [Option.bind_eq_bind, Option.bind_some, getElem?_sorted hbefore,
      getElem?_sorted hmiddle]
    rfl
  · exact getElem?_sorted (by omega)

theorem percentile?_eq (hne : values ≠ []) (hlength : values.length ≤ 2 ^ 53) (p : Float) :
    percentile? values p = some (percentile values p) := by
  have hpos := List.length_pos_iff.mpr hne
  have hranks := ranksWithin_position p hpos hlength
  rw [percentile?, percentile]
  split
  · exact getElem?_sorted hpos
  · rw [ppred_of_pos hpos]
    have hlower := getElem?_sorted (hranks.ordered.trans_lt hranks.last)
    have hupper := getElem?_sorted hranks.last
    simp only [Option.bind_eq_bind, Option.bind_some, hlower, hupper]
    rfl

end

/-! ## Counting by place -/

/-- A table of counts, and for the key of each value the place of its entry. -/
structure Indexed where
  index : Std.HashMap UInt64 ℕ
  table : List (Float × ℕ)

namespace Indexed

/-- One value counted, if the place that the index has for it is in the table. -/
def count? (state : Indexed) (v : Float) : Option Indexed :=
  match state.index[Number.countingKey v]? with
  | some i => state.table[i]?.map fun e =>
      { state with table := state.table.set i (e.1, e.2 + 1) }
  | none => some ⟨state.index.insert (Number.countingKey v) state.table.length,
      state.table ++ [(v, 1)]⟩

/-- The index has the places of the keys in the table and no others. -/
def Faithful (state : Indexed) : Prop := IsIndex state.index (keys state.table)

end Indexed

section
variable {state : Indexed} {table : List (Float × ℕ)} {v : Float} {e : Float × ℕ} {i : ℕ}

theorem bump_of_getElem? (hi : table[i]? = some e)
    (hkey : Number.countingKey e.1 = Number.countingKey v)
    (hfirst : ∀ j < i, (keys table)[j]? ≠ some (Number.countingKey v)) :
    bump v table = table.set i (e.1, e.2 + 1) := by
  induction table generalizing i with
  | nil => cases hi
  | cons entry rest ih =>
    cases i with
    | zero =>
      cases hi
      exact if_pos hkey
    | succ i =>
      have hne : Number.countingKey entry.1 ≠ Number.countingKey v := fun heq =>
        hfirst 0 (Nat.succ_pos i) (congrArg some heq)
      rw [bump, if_neg hne, ih hi fun j hj => hfirst (j + 1) (Nat.succ_lt_succ hj)]
      rfl

theorem bump_of_not_mem (h : Number.countingKey v ∉ keys table) :
    bump v table = table ++ [(v, 1)] := by
  induction table with
  | nil => rfl
  | cons entry rest ih =>
    obtain ⟨hne, hrest⟩ := not_or.mp (mt List.mem_cons.mpr h)
    rw [bump, if_neg (Ne.symm hne), ih hrest]
    rfl

/-- Counting a value does not fail and does what the table does without an index. -/
theorem Indexed.Faithful.count? (h : state.Faithful) (v : Float) : ∃ next,
    state.count? v = some next ∧ next.Faithful ∧ next.table = bump v state.table := by
  obtain ⟨index, table⟩ := state
  have hkeys := keys_bump v table
  cases hindex : index[Number.countingKey v]? with
  | some i =>
    have hi := (h _ i).mp hindex
    rw [if_pos (List.mem_of_getElem? hi)] at hkeys
    have hplace := hi
    rw [keys, List.getElem?_map] at hi
    obtain ⟨e, he, hkey⟩ := Option.map_eq_some_iff.mp hi
    have hbump := bump_of_getElem? he hkey fun j hj hsame =>
      Nat.ne_of_lt hj (h.eq_of_getElem? hsame hplace)
    refine ⟨⟨index, bump v table⟩, ?_, ?_, rfl⟩
    · simp only [Indexed.count?, hindex, he, Option.map_some, hbump]
    · rw [Indexed.Faithful, hkeys]
      exact h
  | none =>
    have hnew := h.not_mem hindex
    rw [if_neg hnew] at hkeys
    refine ⟨⟨index.insert (Number.countingKey v) table.length, bump v table⟩, ?_, ?_, rfl⟩
    · simp only [Indexed.count?, hindex, bump_of_not_mem hnew]
    · have hlength : (keys table).length = table.length := List.length_map _
      rw [Indexed.Faithful, hkeys, ← hlength]
      exact h.concat hindex

/-- So does counting many. -/
theorem Indexed.Faithful.foldlM (h : state.Faithful) (values : List Float) : ∃ last : Indexed,
    values.foldlM Indexed.count? state = some last ∧ last.Faithful ∧
      last.table = values.foldl (fun table v => bump v table) state.table := by
  induction values generalizing state with
  | nil => exact ⟨state, rfl, h, rfl⟩
  | cons v rest ih =>
    obtain ⟨next, hnext, hfaithful, htable⟩ := h.count? v
    obtain ⟨last, hlast, hfaithful, hall⟩ := ih hfaithful
    refine ⟨last, ?_, hfaithful, ?_⟩
    · rw [List.foldlM_cons, hnext]
      exact hlast
    · rw [hall, htable, List.foldl_cons]

end

theorem Indexed.faithful_empty : Indexed.Faithful ⟨∅, []⟩ := isIndex_empty

/-- The mode, if the places that counting goes to are there. -/
def mode? (values : List Float) : Option (Option Float) :=
  (values.foldlM Indexed.count? ⟨∅, []⟩).map fun state => (leader state.table).map Prod.fst

theorem mode?_eq (values : List Float) : mode? values = some (mode values) := by
  obtain ⟨last, hlast, -, htable⟩ := Indexed.faithful_empty.foldlM values
  rw [mode?, hlast, Option.map_some, htable]
  rfl

/-! ## Aggregates -/

/-- The aggregate of a non-empty list, if all that is read is there. -/
def fold? (kind : AggregateKind) (p? : Option Float) (head : Float) (rest : List Float) :
    Option (Option Float) :=
  let values := head :: rest
  match kind with
  | .median => (median? values).map some
  | .mode => mode? values
  | .percentile => (percentile? values (p?.getD 50.0)).map some
  | .first => values[0]?.map some
  | .last => do
    let last ← values.length.ppred
    (values[last]?).map some
  | kind => some (fold kind p? head rest)

/-- The aggregate of values, if all that is read is there. -/
def ofValues? (values : List Float) (kind : AggregateKind) (p? : Option Float) :
    Option (Option Float) :=
  match kind, values with
  | .count, values => some (ofValues values .count p?)
  | .distinct, values => some (ofValues values .distinct p?)
  | _, [] => some none
  | kind, head :: rest => (fold? kind p? head rest).map fun result => result.bind finite?

theorem fold?_eq (kind : AggregateKind) (p? : Option Float) (head : Float) {rest : List Float}
    (hlength : (head :: rest).length ≤ 2 ^ 53) :
    fold? kind p? head rest = some (fold kind p? head rest) := by
  have hne : head :: rest ≠ [] := List.cons_ne_nil head rest
  cases kind with
  | median => rw [fold?, median?_eq hne]; rfl
  | mode => exact mode?_eq _
  | percentile => rw [fold?, percentile?_eq hne hlength]; rfl
  | last =>
    have hlast : (head :: rest)[rest.length]? = some (rest.getLastD head) := by
      rw [List.getLastD_eq_getLast?, ← List.getLast?_cons, List.getLast?_eq_getElem?]
      rfl
    rw [fold?, ppred_of_pos (List.length_pos_iff.mpr hne), Option.bind_eq_bind, Option.bind_some,
      List.length_cons, Nat.add_sub_cancel, hlast]
    rfl
  | _ => rfl

theorem ofValues?_eq {values : List Float} (hlength : values.length ≤ 2 ^ 53)
    (kind : AggregateKind) (p? : Option Float) :
    ofValues? values kind p? = some (ofValues values kind p?) := by
  cases values with
  | nil => cases kind <;> rfl
  | cons head rest =>
    have hfold := fold?_eq kind p? head hlength
    cases kind <;> simp only [ofValues?, ofValues, hfold, Option.map_some]

/-- No list is read out of range, whatever the percentile is that is asked for. The ranks of a
percentile are the floor and the ceiling of its position, neighbours at most and both in the list,
and all aggregates of a list that read by rank or by place answer what they do without the check.
A list of more than `2 ^ 53` doubles is larger than what a process can address; an aggregate over
rows reads no more than its ceiling, so that there no length matters. -/
theorem ranks_in_range (p? : Option Float) :
    (∀ values : List Float, values ≠ [] → values.length ≤ 2 ^ 53 →
      RanksWithin values.length (position (p?.getD 50.0) (values.length - 1)) ∧
      ∀ kind, ofValues? values kind p? = some (ofValues values kind p?)) ∧
    ∀ rows column kind, ofValues? (numbers (rows.take (AggregateKind.rowCeiling kind)) column)
      kind p? = some (ofRows rows column kind p?) := by
  refine ⟨fun values hne hlength => ⟨?_, fun kind => ofValues?_eq hlength kind p?⟩,
    fun rows column kind => ofValues?_eq (length_numbers_lt rows column kind).le kind p?⟩
  exact ranksWithin_position _ (List.length_pos_iff.mpr hne) hlength

/-- Where a percentile that is NaN is read, which is the middle one. -/
theorem ranks_in_range_nan :
    let values : List Float := [9.0, 1.0, 8.0, 2.0, 6.0, 3.0]
    rankBounds (position Number.nan 5) = (2, 3) ∧ RanksWithin 6 (position Number.nan 5) ∧
      ofValues? values .percentile (some Number.nan) = some (some 4.5) := by
  intro values
  have hsorted : sorted values = [1.0, 2.0, 3.0, 6.0, 8.0, 9.0] :=
    sorted_eq (by decide +kernel) (by decide +kernel)
  have hvalue : ofValues values .percentile (some Number.nan) = some 4.5 := by
    show finite? (percentile values Number.nan) = _
    rw [percentile, hsorted]
    decide +kernel
  obtain ⟨hranks, hchecked⟩ :=
    (ranks_in_range (some Number.nan)).1 values (List.cons_ne_nil _ _) (by decide)
  refine ⟨by decide +kernel, hranks, ?_⟩
  rw [hchecked, hvalue]

end Tabular.Aggregate

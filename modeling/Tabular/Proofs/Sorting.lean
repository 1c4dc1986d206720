import Mathlib
import Tabular.Sorting
import Tabular.Instant
import Tabular.Proofs.Number.Value

/-!
# Sorted rows

A cell that is not null has a rank: numbers come before dates and dates before other texts,
numbers go by value, dates by the calendar and texts by code point. Sorting goes by the ranks of
one column, in either direction. It moves rows without a rank to the end, and rows of one rank stay
in the order they had (`sort_sortedBy`). Of the calendar only this is assumed, that the comparison
of its moments is total and transitive.
-/
namespace Tabular
open Number

/-- A list in which nothing that fails a test stands before what passes it is cut by the test. -/
theorem filter_append_filter {α : Type} {p : α → Bool} {items : List α}
    (h : items.Pairwise fun a b => p b = true → p a = true) :
    items.filter p ++ items.filter (fun a => !p a) = items := by
  induction items with
  | nil => rfl
  | cons a rest ih =>
    obtain ⟨hfirst, hrest⟩ := List.pairwise_cons.mp h
    cases ha : p a with
    | true => simpa [ha] using ih hrest
    | false =>
      have hnone : ∀ b ∈ rest, p b = false := fun b hb =>
        Bool.eq_false_iff.mpr fun hpb => absurd (hfirst b hb hpb) (Bool.eq_false_iff.mp ha)
      rw [List.filter_eq_nil_iff.mpr (by simpa [ha] using hnone), List.nil_append]
      exact List.filter_eq_self.mpr (by simpa [ha] using hnone)

/-- Where a cell stands in ascending order. -/
inductive Rank [Calendar]
  | number (value : ℚ)
  | date (moment : Calendar.Moment)
  | text (value : String)

section
variable [Calendar]

namespace Rank

protected def le : Rank → Rank → Prop
  | number a, number b => a ≤ b
  | date a, date b => (compare a b).isLE
  | text a, text b => a ≤ b
  | number _, _ => True
  | date _, text _ => True
  | _, _ => False

instance : LE Rank := ⟨Rank.le⟩

instance : DecidableLE Rank := fun a b =>
  match a, b with
  | number a, number b => inferInstanceAs (Decidable (a ≤ b))
  | date a, date b => inferInstanceAs (Decidable ((compare a b).isLE = true))
  | text a, text b => inferInstanceAs (Decidable (a ≤ b))
  | number _, date _ => isTrue trivial
  | number _, text _ => isTrue trivial
  | date _, text _ => isTrue trivial
  | date _, number _ => isFalse id
  | text _, number _ => isFalse id
  | text _, date _ => isFalse id

/-- Two ranks may follow each other in an order. -/
def InOrder (order : SortOrder) (a b : Rank) : Prop :=
  match order with
  | .asc => a ≤ b
  | .desc => b ≤ a

end Rank

/-- The moment a text cell denotes. -/
def Cell.date? : Cell → Option Calendar.Moment
  | .text s => Calendar.read? s
  | _ => none

/-- The rank of a cell; a null has none. -/
def Cell.rank? (cell : Cell) : Option Rank :=
  if cell = .null then none
  else
    match cell.number?, cell.date? with
    | some x, _ => some (.number (Number.exact x))
    | none, some moment => some (.date moment)
    | none, none => some (.text cell.display)

def Row.rank? (row : Row) (column : String) : Option Rank := (row.cell column).rank?

/-- A row has a rank that is neither before another nor behind it. -/
def Row.hasRank (column : String) (rank : Rank) (row : Row) : Bool :=
  (row.rank? column).any fun a => a ≤ rank ∧ rank ≤ a

/-- What sorting rows by a column makes of them. -/
structure SortedBy (column : String) (order : SortOrder) (rows sorted : Dataset) : Prop where
  perm : sorted.Perm rows
  /-- Rows whose cell is null or missing come last, as they were. -/
  nullsLast : ∃ front, sorted = front ++ rows.filter (·.cell column = .null) ∧
    ∀ row ∈ front, row.cell column ≠ .null
  ordered : sorted.Pairwise fun row next => ∀ a ∈ row.rank? column, ∀ b ∈ next.rank? column,
    Rank.InOrder order a b
  /-- Rows of one rank stay in the order they had. -/
  stable : ∀ rank, sorted.filter (Row.hasRank column rank) = rows.filter (Row.hasRank column rank)

/-! ## Keys and ranks -/

namespace SortKey

def rank : SortKey → Rank
  | .number x => .number (Number.exact x)
  | .date moment => .date moment
  | .text s => .text s

/-- A number is finite as a key of a cell. -/
def IsFinite (key : SortKey) : Prop := ∀ x, key = .number x → x.isFinite

theorem isFinite_ofCell? {cell : Cell} {key : SortKey} (h : ofCell? cell = some key) :
    key.IsFinite := by
  rintro x rfl
  unfold ofCell? at h
  split at h
  · rename_i y hy
    cases h
    exact Cell.number?_finite cell _ hy
  · split at h
    · cases h
    · split at h <;> cases h
    · cases h

theorem map_rank_ofCell? (cell : Cell) : (ofCell? cell).map rank = cell.rank? := by
  unfold ofCell? Cell.rank?
  cases hnumber : cell.number? with
  | some x =>
    have hnull : cell ≠ .null := by
      rintro rfl
      cases hnumber
    rw [if_neg hnull]
    rfl
  | none =>
    cases cell with
    | null => rfl
    | bool b => rfl
    | number x => rfl
    | text s =>
      dsimp only [Cell.date?]
      cases Calendar.read? s <;> rfl

theorem isLE_compare_numbers {x y : Float} (hx : x.isFinite) (hy : y.isFinite) :
    (compare (.number x) (.number y)).isLE = true ↔ Number.exact x ≤ Number.exact y := by
  simp only [compare, lt_iff_exact_lt hx hy, lt_iff_exact_lt hy hx]
  rcases lt_trichotomy (Number.exact x) (Number.exact y) with h | h | h
  · simp [h, h.le]
  · simp [h]
  · simp [h, h.not_gt]

theorem isLE_compare {a b : SortKey} (ha : a.IsFinite) (hb : b.IsFinite) :
    (compare a b).isLE = true ↔ a.rank ≤ b.rank := by
  cases a with
  | number x =>
    cases b with
    | number y => exact isLE_compare_numbers (ha x rfl) (hb y rfl)
    | date j => exact iff_of_true rfl trivial
    | text t => exact iff_of_true rfl trivial
  | date i =>
    cases b with
    | number y => exact iff_of_false Bool.false_ne_true id
    | date j => exact Iff.rfl
    | text t => exact iff_of_true rfl trivial
  | text s =>
    cases b with
    | number y => exact iff_of_false Bool.false_ne_true id
    | date j => exact iff_of_false Bool.false_ne_true id
    | text t =>
      have hiff : (Ord.compare s t).isLE = true ↔ s ≤ t := Std.LawfulBCmp.isLE_iff_le
      exact hiff

variable [Std.TransOrd Calendar.Moment]

theorem swap_compare {a b : SortKey} (ha : a.IsFinite) (hb : b.IsFinite) :
    (compare a b).swap = compare b a := by
  cases a with
  | number x =>
    cases b with
    | number y =>
      have hx := ha x rfl
      have hy := hb y rfl
      simp only [compare, lt_iff_exact_lt hx hy, lt_iff_exact_lt hy hx]
      rcases lt_trichotomy (Number.exact x) (Number.exact y) with h | h | h
      · simp [h, h.not_gt]
      · simp [h]
      · simp [h, h.not_gt]
    | date j => rfl
    | text t => rfl
  | date i =>
    cases b with
    | date j => exact Std.OrientedOrd.eq_swap.symm
    | number y => rfl
    | text t => rfl
  | text s =>
    cases b with
    | text t => exact Std.OrientedOrd.eq_swap.symm
    | number y => rfl
    | date j => rfl

theorem isLE_compareIn {order : SortOrder} {a b : SortKey} (ha : a.IsFinite) (hb : b.IsFinite) :
    (compareIn order a b).isLE = true ↔ Rank.InOrder order a.rank b.rank := by
  cases order with
  | asc => exact isLE_compare ha hb
  | desc =>
    rw [compareIn, swap_compare ha hb]
    exact isLE_compare hb ha

end SortKey

/-! ## Sorting by rank -/

namespace Rank
variable {order : SortOrder}

protected theorem le_total [Std.TransOrd Calendar.Moment] (a b : Rank) : a ≤ b ∨ b ≤ a := by
  cases a with
  | number x =>
    cases b with
    | number y => exact le_total x y
    | date j => exact .inl trivial
    | text t => exact .inl trivial
  | date i =>
    cases b with
    | number y => exact .inr trivial
    | date j =>
      have hswap : compare j i = (compare i j).swap := Std.OrientedOrd.eq_swap
      change (compare i j).isLE = true ∨ (compare j i).isLE = true
      rw [hswap]
      cases compare i j <;> decide
    | text t => exact .inl trivial
  | text s =>
    cases b with
    | number y => exact .inr trivial
    | date j => exact .inr trivial
    | text t => exact le_total s t

protected theorem le_trans [Std.TransOrd Calendar.Moment] {a b c : Rank} (h : a ≤ b)
    (h' : b ≤ c) : a ≤ c := by
  cases a with
  | number x =>
    cases c with
    | number z =>
      cases b with
      | number y => exact le_trans (α := ℚ) h h'
      | date j => cases h'
      | text t => cases h'
    | date k => trivial
    | text u => trivial
  | date i =>
    cases b with
    | number y => cases h
    | date j =>
      cases c with
      | number z => cases h'
      | date k => exact @Std.TransCmp.isLE_trans Calendar.Moment compare _ i j k h h'
      | text u => trivial
    | text t =>
      cases c with
      | number z => cases h'
      | date k => cases h'
      | text u => trivial
  | text s =>
    cases b with
    | number y => cases h
    | date j => cases h
    | text t =>
      cases c with
      | number z => cases h'
      | date k => cases h'
      | text u => exact le_trans (α := String) h h'

instance (a b : Rank) : Decidable (InOrder order a b) :=
  match order with
  | .asc => inferInstanceAs (Decidable (a ≤ b))
  | .desc => inferInstanceAs (Decidable (b ≤ a))

/-- A row of the first rank may stand before one of the second; no rank comes last. -/
def mayPrecede (order : SortOrder) : Option Rank → Option Rank → Bool
  | _, none => true
  | none, some _ => false
  | some a, some b => InOrder order a b

/-- Nothing but what has no rank either may stand behind what has none. -/
theorem eq_none_of_mayPrecede {a b : Option Rank} (h : mayPrecede order a b) (ha : a = none) :
    b = none := by
  subst ha
  cases b with
  | none => rfl
  | some b => cases h

variable [Std.TransOrd Calendar.Moment]

theorem inOrder_trans {a b c : Rank} (h : InOrder order a b) (h' : InOrder order b c) :
    InOrder order a c := by
  cases order with
  | asc => exact Rank.le_trans h h'
  | desc => exact Rank.le_trans h' h

theorem inOrder_total (a b : Rank) : InOrder order a b ∨ InOrder order b a := by
  cases order with
  | asc => exact Rank.le_total a b
  | desc => exact Rank.le_total b a

/-- What is not before a third rank, nor behind it, may stand in front of what is neither too. -/
theorem inOrder_of_le {a b c : Rank} (ha : a ≤ c ∧ c ≤ a) (hb : b ≤ c ∧ c ≤ b) :
    InOrder order a b := by
  cases order with
  | asc => exact Rank.le_trans ha.1 hb.2
  | desc => exact Rank.le_trans hb.1 ha.2

theorem mayPrecede_trans (a b c : Option Rank) (h : mayPrecede order a b)
    (h' : mayPrecede order b c) : mayPrecede order a c := by
  cases c with
  | none => cases a <;> rfl
  | some c =>
    cases b with
    | none => cases h'
    | some b =>
      cases a with
      | none => cases h
      | some a =>
        exact decide_eq_true (inOrder_trans (of_decide_eq_true h) (of_decide_eq_true h'))

theorem mayPrecede_total (a b : Option Rank) : mayPrecede order a b ∨ mayPrecede order b a := by
  cases a with
  | none => exact .inr (by cases b <;> rfl)
  | some a =>
    cases b with
    | none => exact .inl rfl
    | some b => exact (inOrder_total a b).imp decide_eq_true decide_eq_true

end Rank

theorem SortKey.mayPrecede_eq [Std.TransOrd Calendar.Moment] {order : SortOrder} (a b : Cell) :
    mayPrecede order (ofCell? a) (ofCell? b) = Rank.mayPrecede order a.rank? b.rank? := by
  rw [← map_rank_ofCell?, ← map_rank_ofCell?]
  cases hb : ofCell? b with
  | none => cases ofCell? a <;> rfl
  | some b =>
    cases ha : ofCell? a with
    | none => rfl
    | some a =>
      rw [Bool.eq_iff_iff]
      exact (isLE_compareIn (isFinite_ofCell? ha) (isFinite_ofCell? hb)).trans
        decide_eq_true_iff.symm

def Row.mayPrecede (column : String) (order : SortOrder) (row next : Row) : Bool :=
  Rank.mayPrecede order (row.rank? column) (next.rank? column)

/-- Rows are sorted as their ranks ask for, for which their keys stand. -/
theorem sort_eq_mergeSort [Std.TransOrd Calendar.Moment] (rows : Dataset) (column : String)
    (order : SortOrder) :
    rows.sort column order = rows.mergeSort (Row.mayPrecede column order) := by
  have hkeys : (rows.map fun row => (row.sortKey? column, row)).map Prod.snd = rows := by
    rw [List.map_map, Function.comp_def, List.map_id']
  conv_rhs => rw [← hkeys]
  refine List.map_mergeSort fun a ha b hb => ?_
  obtain ⟨row, -, rfl⟩ := List.mem_map.mp ha
  obtain ⟨next, -, rfl⟩ := List.mem_map.mp hb
  exact SortKey.mayPrecede_eq _ _

theorem rank?_eq_none {cell : Cell} : cell.rank? = none ↔ cell = .null := by
  unfold Cell.rank?
  split
  · rename_i h
    exact ⟨fun _ => h, fun _ => rfl⟩
  · rename_i h
    refine ⟨fun hnone => ?_, fun hnull => absurd hnull h⟩
    split at hnone <;> cases hnone

theorem decide_null (column : String) (row : Row) :
    decide (row.cell column = .null) = (row.rank? column).isNone := by
  rw [Bool.eq_iff_iff, decide_eq_true_iff, Option.isNone_iff_eq_none]
  exact rank?_eq_none.symm

variable [Std.TransOrd Calendar.Moment] (rows : Dataset) (column : String) (order : SortOrder)

theorem mayPrecede_trans (a b c : Row) (h : a.mayPrecede column order b)
    (h' : b.mayPrecede column order c) : a.mayPrecede column order c :=
  Rank.mayPrecede_trans _ _ _ h h'

theorem mayPrecede_total (a b : Row) :
    (a.mayPrecede column order b || b.mayPrecede column order a) = true :=
  Bool.or_eq_true_iff.mpr (Rank.mayPrecede_total _ _)

theorem pairwise_sort : (rows.sort column order).Pairwise (Row.mayPrecede column order · ·) := by
  rw [sort_eq_mergeSort]
  exact List.pairwise_mergeSort (mayPrecede_trans column order) (mayPrecede_total column order) rows

/-- Rows that may all stand in front of each other are the same ones before and after, and in the
same order. -/
theorem filter_sort {p : Row → Bool}
    (h : ∀ row next, p row → p next → row.mayPrecede column order next) :
    (rows.sort column order).filter p = rows.filter p := by
  -- Among themselves these rows are in order, so they stay a sublist.
  have hsorted : (rows.filter p).Pairwise (Row.mayPrecede column order · ·) :=
    List.pairwise_of_forall_mem_list fun row hrow next hnext =>
      h row next (List.mem_filter.mp hrow).2 (List.mem_filter.mp hnext).2
  have hsub : (rows.filter p).Sublist (rows.sort column order) := by
    rw [sort_eq_mergeSort]
    exact List.sublist_mergeSort (mayPrecede_trans column order) (mayPrecede_total column order)
      hsorted List.filter_sublist
  have hfiltered := hsub.filter p
  simp only [List.filter_filter, Bool.and_self] at hfiltered
  exact (hfiltered.eq_of_length ((sort_perm rows column order).filter _).length_eq.symm).symm

theorem filter_null_sort : (rows.sort column order).filter (·.cell column = .null) =
    rows.filter (·.cell column = .null) := by
  refine filter_sort rows column order fun row next _ hnext => ?_
  rw [decide_null, Option.isNone_iff_eq_none] at hnext
  rw [Row.mayPrecede, hnext]
  cases row.rank? column <;> rfl

theorem filter_hasRank_sort (rank : Rank) :
    (rows.sort column order).filter (Row.hasRank column rank) =
      rows.filter (Row.hasRank column rank) := by
  refine filter_sort rows column order fun row next hrow hnext => ?_
  obtain ⟨a, ha, hrank⟩ := (Option.any_eq_true ..).mp hrow
  obtain ⟨b, hb, hrank'⟩ := (Option.any_eq_true ..).mp hnext
  rw [Row.mayPrecede, ha, hb]
  exact decide_eq_true
    (Rank.inOrder_of_le (of_decide_eq_true hrank) (of_decide_eq_true hrank'))

/-- A sorted dataset ends with its rows that have no cell there or a null. -/
theorem sort_eq_append : rows.sort column order =
    (rows.sort column order).filter (fun row => !decide (row.cell column = .null)) ++
      rows.filter (·.cell column = .null) := by
  have hcut : ((rows.sort column order).filter fun row => !decide (row.cell column = .null)) ++
      (rows.sort column order).filter (fun row => !!decide (row.cell column = .null)) =
        rows.sort column order := by
    refine filter_append_filter ((pairwise_sort rows column order).imp ?_)
    intro row next h
    simp only [decide_null, Bool.not_eq_true', Option.isNone_eq_false_iff,
      Option.isSome_iff_ne_none]
    exact mt (Rank.eq_none_of_mayPrecede h)
  simp only [Bool.not_not, filter_null_sort] at hcut
  exact hcut.symm

/-- Where the moments of the calendar are in one order, rows are sorted by the ranks of their cells
in a column: in the order that is asked for, with the rows behind that have a null there or no
cell, and with rows of one rank as they were. -/
theorem sort_sortedBy : SortedBy column order rows (rows.sort column order) where
  perm := sort_perm rows column order
  nullsLast := ⟨_, sort_eq_append rows column order,
    fun row hrow => by simpa using (List.mem_filter.mp hrow).2⟩
  ordered := by
    refine (pairwise_sort rows column order).imp ?_
    intro row next h a ha b hb
    rw [Row.mayPrecede, Option.mem_def.mp ha, Option.mem_def.mp hb] at h
    exact of_decide_eq_true h
  stable := filter_hasRank_sort rows column order

end

/-- Two spellings of one number, two of one moment, a text and a missing cell. -/
theorem sort_sortedBy_mixed :
    let rows : Dataset := [Row.ofList [("When", .text "soon")], Row.empty,
      Row.ofList [("When", .text "2024-03-01")], Row.ofList [("When", .text "$7")],
      Row.ofList [("When", .text "2024-03-01T02:00:00+02:00")], Row.ofList [("When", .number 7)]]
    rows.map (fun row => ((row.cell "When").number?, (row.cell "When").date?.map Instant.day)) =
      [(none, none), (none, none), (none, some 19783), (some 7, none), (none, some 19783),
        (some 7, none)] ∧
      Std.TransOrd Calendar.Moment ∧ SortedBy "When" .desc rows (rows.sort "When" .desc) :=
  ⟨by decide +kernel, inferInstance, sort_sortedBy _ _ _⟩

end Tabular

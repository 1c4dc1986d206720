import Mathlib.Data.List.Induction
import Mathlib.Data.List.Nodup
import Mathlib.Data.List.Pairwise
import Std.Data.HashMap.Lemmas

/-!
# First occurrences

Dropping repetitions from a list leaves what occurs in it in the order of first occurrences
(`firstOccurrences_eraseDups`). An index of such a list has the place of each value
(`IsIndex`), and keeps it when a new value comes last.
-/
namespace Tabular

/-- What holds of pairs in order holds one way or the other of any two. -/
theorem pairwise_or_of_ne {α : Type} {R : α → α → Prop} {l : List α} (h : l.Pairwise R)
    {a b : α} (ha : a ∈ l) (hb : b ∈ l) (hne : a ≠ b) : R a b ∨ R b a := by
  have : Std.Symm fun a b => R a b ∨ R b a := ⟨fun _ _ => Or.symm⟩
  have heither : l.Pairwise fun a b => R a b ∨ R b a := h.imp Or.inl
  exact heither.forall ha hb hne

/-- A quantity that grows along a list tells its items apart. -/
theorem eq_of_pairwise_lt {α : Type} {f : α → Nat} {l : List α}
    (h : l.Pairwise fun a b => f a < f b) {a b : α} (ha : a ∈ l) (hb : b ∈ l) (he : f a = f b) :
    a = b :=
  List.inj_on_of_nodup_map (List.pairwise_map.mpr (h.imp Nat.ne_of_lt)) ha hb he

/-! ## Lists without repetitions -/

section
variable {α β : Type} [BEq α] [LawfulBEq α]

theorem eraseDups_concat (l : List α) (a : α) :
    (l ++ [a]).eraseDups = if a ∈ l then l.eraseDups else l.eraseDups ++ [a] := by
  rw [List.eraseDups_append]
  by_cases h : a ∈ l
  · have hold : [a].removeAll l = [] := by
      rw [List.removeAll, List.filter_cons_of_neg (by simpa using h), List.filter_nil]
    rw [if_pos h, hold, List.eraseDups_nil, List.append_nil]
  · have hnew : [a].removeAll l = [a] := by
      rw [List.removeAll, List.filter_cons_of_pos (by simpa using h), List.filter_nil]
    rw [if_neg h, hnew]
    rfl

theorem eraseDups_eq_self {l : List α} (h : l.Nodup) : l.eraseDups = l := by
  induction l using List.reverseRecOn with
  | nil => rfl
  | append_singleton l a ih =>
    have hnew : a ∉ l := fun hmem => List.nodup_append.mp h |>.2.2 a hmem a (by simp) rfl
    rw [eraseDups_concat, if_neg hnew, ih (List.nodup_append.mp h).1]

/-- Adding what is not there yet, item by item, drops the repetitions. -/
theorem foldl_eq_eraseDups {step : List α → β → List α} {value : β → α} {items : List β}
    (hstep : ∀ list, (∀ a ∈ list, ∃ b ∈ items, a = value b) → ∀ b ∈ items,
      step list b = if value b ∈ list then list else list ++ [value b]) :
    items.foldl step [] = (items.map value).eraseDups := by
  induction items using List.reverseRecOn with
  | nil => rfl
  | append_singleton items b ih =>
    have hrest := ih fun list hlist c hc => hstep list
      (fun a ha => (hlist a ha).imp fun d ⟨hd, hv⟩ => ⟨List.mem_append_left _ hd, hv⟩) c
      (List.mem_append_left _ hc)
    have hvalues : ∀ a ∈ (items.map value).eraseDups, ∃ b' ∈ items ++ [b], a = value b' := by
      intro a ha
      obtain ⟨c, hc, rfl⟩ := List.mem_map.mp (List.mem_eraseDups.mp ha)
      exact ⟨c, List.mem_append_left _ hc, rfl⟩
    rw [List.foldl_append, List.foldl_cons, List.foldl_nil, hrest, List.map_append,
      List.map_singleton, eraseDups_concat, hstep _ hvalues b (by simp)]
    simp only [List.mem_eraseDups]

theorem eraseDups_map [BEq β] [LawfulBEq β] {f : β → α} {l : List β}
    (h : ∀ a ∈ l, ∀ b ∈ l, f a = f b → a = b) : (l.map f).eraseDups = l.eraseDups.map f := by
  induction l using List.reverseRecOn with
  | nil => rfl
  | append_singleton l a ih =>
    have hrest := ih fun b hb c hc => h b (List.mem_append_left _ hb) c (List.mem_append_left _ hc)
    have hmem : f a ∈ l.map f ↔ a ∈ l := by
      rw [List.mem_map]
      constructor
      · rintro ⟨b, hb, he⟩
        exact h b (List.mem_append_left _ hb) a (by simp) he ▸ hb
      · exact fun ha => ⟨a, ha, rfl⟩
    rw [List.map_append, List.map_singleton, eraseDups_concat, eraseDups_concat, hrest]
    simp only [hmem]
    split
    · rfl
    · rw [List.map_append, List.map_singleton]

end

/-! ## The order of what is left -/

/-- `distinct` lists what occurs in a list, each once, in the order of first occurrences. -/
structure FirstOccurrences {α : Type} [BEq α] (all distinct : List α) : Prop where
  mem : ∀ a, a ∈ distinct ↔ a ∈ all
  order : distinct.Pairwise fun a b => all.idxOf a < all.idxOf b

section
variable {α : Type} [BEq α]

theorem FirstOccurrences.nodup {all distinct : List α} (h : FirstOccurrences all distinct) :
    distinct.Nodup := by
  refine h.order.imp fun hlt he => ?_
  rw [he] at hlt
  exact Nat.lt_irrefl _ hlt

variable [LawfulBEq α]

theorem firstOccurrences_eraseDups (l : List α) : FirstOccurrences l l.eraseDups := by
  refine ⟨fun a => List.mem_eraseDups, ?_⟩
  induction l using List.reverseRecOn with
  | nil => exact .nil
  | append_singleton l a ih =>
    have hfront : ∀ b ∈ l.eraseDups, (l ++ [a]).idxOf b = l.idxOf b := fun b hb =>
      List.idxOf_append_of_mem (List.mem_eraseDups.mp hb)
    have hold : l.eraseDups.Pairwise fun b c => (l ++ [a]).idxOf b < (l ++ [a]).idxOf c :=
      ih.imp_of_mem fun hb hc hlt => by rwa [hfront _ hb, hfront _ hc]
    rw [eraseDups_concat]
    split
    · exact hold
    · rename_i hnew
      refine List.pairwise_append.mpr ⟨hold, List.pairwise_singleton _ _, fun b hb c hc => ?_⟩
      obtain rfl := List.mem_singleton.mp hc
      rw [hfront b hb, List.idxOf_append_of_notMem hnew]
      exact Nat.lt_add_right _ (List.idxOf_lt_length_iff.mpr (List.mem_eraseDups.mp hb))

/-- Where one value occurs first before another, any item of the other has an item of the
one before it. -/
theorem exists_before_of_idxOf_lt {β : Type} {items : List β} {value : β → α}
    {before : β → β → Prop} (h : items.Pairwise before) {a b : α}
    (hlt : (items.map value).idxOf a < (items.map value).idxOf b) {u : β} (hu : u ∈ items)
    (hb : value u = b) : ∃ t ∈ items, value t = a ∧ before t u := by
  induction items with
  | nil => cases hu
  | cons c rest ih =>
    obtain ⟨hc, hrest⟩ := List.pairwise_cons.mp h
    rw [List.map_cons, List.idxOf_cons, List.idxOf_cons] at hlt
    -- The first item is one of the other's only if nothing occurs before the other.
    have hne : value c ≠ b := by
      rintro rfl
      simp at hlt
    rcases List.mem_cons.mp hu with rfl | hu
    · exact absurd hb hne
    by_cases ha : value c = a
    · exact ⟨c, List.mem_cons_self, ha, hc u hu⟩
    · simp only [beq_false_of_ne ha, beq_false_of_ne hne, cond_false, Nat.add_lt_add_iff_right]
        at hlt
      obtain ⟨t, ht, hta, htu⟩ := ih hrest hlt hu
      exact ⟨t, List.mem_cons_of_mem _ ht, hta, htu⟩

/-- Distinct values are in an order of the items: whichever item of the later value is
taken, the earlier one has an item before it. -/
theorem FirstOccurrences.pairwise {β : Type} {items : List β} {value : β → α}
    {distinct : List α} (h : FirstOccurrences (items.map value) distinct)
    {before : β → β → Prop} (hitems : items.Pairwise before) :
    distinct.Pairwise fun a b => ∀ u ∈ items, value u = b →
      ∃ t ∈ items, value t = a ∧ before t u :=
  h.order.imp fun hlt _ hu hb => exists_before_of_idxOf_lt hitems hlt hu hb

end

/-! ## The places of values -/

theorem getElem?_concat_eq_some {α : Type} {l : List α} {a b : α} {i : Nat} :
    (l ++ [a])[i]? = some b ↔ l[i]? = some b ∨ i = l.length ∧ a = b := by
  rcases Nat.lt_trichotomy i l.length with hlt | rfl | hgt
  · rw [List.getElem?_append_left hlt]
    exact (or_iff_left fun h => absurd h.1 (Nat.ne_of_lt hlt)).symm
  · simp
  · have hbehind : (l ++ [a]).length ≤ i := by simpa using Nat.succ_le_of_lt hgt
    rw [List.getElem?_eq_none hbehind, List.getElem?_eq_none (Nat.le_of_lt hgt)]
    simp [Nat.ne_of_gt hgt]

/-- The index has the places of the values in a list and no others. -/
def IsIndex {κ : Type} [BEq κ] [Hashable κ] (index : Std.HashMap κ Nat) (values : List κ) : Prop :=
  ∀ (value : κ) (i : Nat), index[value]? = some i ↔ values[i]? = some value

section
variable {κ : Type} [BEq κ] [Hashable κ] {index : Std.HashMap κ Nat} {values : List κ} {value : κ}

theorem IsIndex.not_mem (h : IsIndex index values) (hnone : index[value]? = none) :
    value ∉ values := by
  intro hmem
  obtain ⟨i, hi⟩ := List.mem_iff_getElem?.mp hmem
  rw [(h value i).mpr hi] at hnone
  cases hnone

/-- A value stands in one place only. -/
theorem IsIndex.eq_of_getElem? (h : IsIndex index values) {i j : Nat}
    (hi : values[i]? = some value) (hj : values[j]? = some value) : i = j := by
  have hsame := (h value i).mpr hi
  rw [(h value j).mpr hj] at hsame
  exact (Option.some.inj hsame).symm

variable [LawfulBEq κ]

theorem isIndex_empty : IsIndex (∅ : Std.HashMap κ Nat) [] := by
  intro value i
  simp

/-- A new value is put at the end. -/
theorem IsIndex.concat (h : IsIndex index values) (hnone : index[value]? = none) :
    IsIndex (index.insert value values.length) (values ++ [value]) := by
  intro other i
  rw [getElem?_concat_eq_some, Std.HashMap.getElem?_insert, ← h other i]
  by_cases heq : value = other
  · subst heq
    simp [hnone, eq_comm]
  · simp [heq]

end

end Tabular

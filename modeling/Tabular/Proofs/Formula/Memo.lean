import Tabular.Formula
import Tabular.Proofs.Occurrences
import Tabular.Proofs.Text.Classes

/-!
# Aggregates computed once

The calls of a formula share their results by name. A name tells the function and the
column, so a shared result is the one the call would have computed itself, and the list
of results names every call once, in the order of first calls.
-/
namespace Tabular.Formula

/-! ## Lists without repetitions -/

theorem mem_appendNew {name other : String} {list : List String} :
    other ∈ appendNew name list ↔ other ∈ list ∨ other = name := by
  unfold appendNew
  split
  · rename_i h
    constructor
    · exact .inl
    · rintro (h' | rfl)
      · exact h'
      · simpa using h
  · simp

theorem mem_foldl_appendNew {α : Type} {f : α → String} {items : List α} {list : List String}
    {name : String} : name ∈ items.foldl (fun list a => appendNew (f a) list) list ↔
      name ∈ list ∨ ∃ a ∈ items, name = f a := by
  induction items generalizing list with
  | nil => simp
  | cons a rest ih => simp [ih, mem_appendNew, or_assoc]

theorem foldl_appendNew_eq {α : Type} (f : α → String) (items : List α) :
    items.foldl (fun list a => appendNew (f a) list) [] = (items.map f).eraseDups :=
  foldl_eq_eraseDups fun list _ a _ => by simp [appendNew]

/-! ## Names of aggregates -/

theorem mem_aggregateNames {function : String} {kind : AggregateKind}
    (h : aggregateOfName? function = some kind) : function ∈ aggregateNames := by
  simp only [aggregateOfName?] at h
  simp only [aggregateNames, List.mem_cons]
  grind

theorem underscore_not_mem {function : String} (h : function ∈ aggregateNames) :
    '_' ∉ function.toList := by
  have hnames : ∀ name ∈ aggregateNames, '_' ∉ name.toList := by decide
  exact hnames function h

/-- The name of a result tells its function and its column. -/
theorem name_inj {function function' column column' : String} (h : function ∈ aggregateNames)
    (h' : function' ∈ aggregateNames)
    (he : function ++ "_" ++ column = function' ++ "_" ++ column') :
    function = function' ∧ column = column' := by
  have hl : function.toList ++ '_' :: column.toList = function'.toList ++ '_' :: column'.toList := by
    simpa using congrArg String.toList he
  obtain ⟨hf, hc⟩ :=
    Text.append_separator_inj (underscore_not_mem h) (underscore_not_mem h') hl
  exact ⟨String.toList_inj.mp hf, String.toList_inj.mp hc⟩

/-! ## The list of results -/

/-- The result of a call on a column. -/
def AggregateCall.result (call : AggregateCall) (rows : Dataset) (column : String) :
    AggregateResult :=
  ⟨call.name column, call.function, column, Aggregate.ofRows rows column call.kind none⟩

/-- Every result is listed under its name and is the aggregate of its column. -/
def Listed (rows : Dataset) (computed : List AggregateResult) : Prop :=
  ∀ a ∈ computed, a.name = a.function ++ "_" ++ a.column ∧
    ∃ kind, aggregateOfName? a.function = some kind ∧
      a.value = Aggregate.ofRows rows a.column kind none

section
variable {call : AggregateCall} {rows : Dataset} {column : String}
  {computed : List AggregateResult}

/-- A result with a call's name is the result of that call. -/
theorem Listed.eq_result (h : Listed rows computed)
    (hk : aggregateOfName? call.function = some call.kind) {a : AggregateResult}
    (ha : a ∈ computed) (hname : a.name = call.name column) : a = call.result rows column := by
  obtain ⟨hn, kind, hkind, hv⟩ := h a ha
  obtain ⟨name, function, column', value⟩ := a
  obtain ⟨rfl, rfl⟩ :=
    name_inj (mem_aggregateNames hkind) (mem_aggregateNames hk) (hn.symm.trans hname)
  cases hkind.symm.trans hk
  rw [AggregateCall.result, ← hname, ← hv]

/-- What is found under a name is a result with that name. -/
theorem mem_of_find?_name {name : String} {a : AggregateResult}
    (h : computed.find? (·.name == name) = some a) : a ∈ computed ∧ a.name = name :=
  ⟨List.mem_of_find?_eq_some h, by simpa using List.find?_some h⟩

/-- A call answers its own result, and lists it if it is not listed yet. -/
theorem Listed.compute_eq (h : Listed rows computed)
    (hk : aggregateOfName? call.function = some call.kind) :
    call.compute rows column computed =
      (Aggregate.ofRows rows column call.kind none,
        if call.result rows column ∈ computed then computed
        else computed ++ [call.result rows column]) := by
  simp only [AggregateCall.compute]
  split
  · rename_i a ha
    obtain ⟨hmem, hname⟩ := mem_of_find?_name ha
    obtain rfl := h.eq_result hk hmem hname
    rw [if_pos hmem]
    rfl
  · rename_i ha
    have hnew : call.result rows column ∉ computed := fun hmem => by
      simpa [AggregateCall.result] using List.find?_eq_none.mp ha _ hmem
    rw [if_neg hnew]
    rfl

theorem listed_of_results {calls : List AggregateCall} {column : String → String}
    (hk : ∀ c ∈ calls, aggregateOfName? c.function = some c.kind)
    (h : ∀ a ∈ computed, ∃ c ∈ calls, a = c.result rows (column c.column)) :
    Listed rows computed := by
  intro a ha
  obtain ⟨c, hc, rfl⟩ := h a ha
  exact ⟨rfl, c.kind, hk c hc, rfl⟩

theorem Listed.compute (h : Listed rows computed)
    (hk : aggregateOfName? call.function = some call.kind) :
    Listed rows (call.compute rows column computed).2 := by
  rw [h.compute_eq hk]
  dsimp only
  split
  · exact h
  · intro a ha
    rcases List.mem_append.mp ha with ha | ha
    · exact h a ha
    · obtain rfl := List.mem_singleton.mp ha
      exact ⟨rfl, call.kind, hk, rfl⟩

end

/-! ## All calls of a formula -/

/-- The results after a list of calls, each on the column that its reference means. -/
def computeAll (rows : Dataset) (column : String → String) (calls : List AggregateCall)
    (computed : List AggregateResult) : List AggregateResult :=
  calls.foldl (fun computed c => (c.compute rows (column c.column) computed).2) computed

section
variable {rows : Dataset} {column : String → String} {calls : List AggregateCall}
  (hk : ∀ c ∈ calls, aggregateOfName? c.function = some c.kind)
include hk

/-- The results of a list of calls are those of the calls without repetitions. -/
theorem computeAll_eq : computeAll rows column calls [] =
    (calls.map fun c => c.result rows (column c.column)).eraseDups :=
  foldl_eq_eraseDups fun _ hlist c hc =>
    congrArg Prod.snd ((listed_of_results hk hlist).compute_eq (hk c hc))

theorem mem_computeAll {a : AggregateResult} : a ∈ computeAll rows column calls [] ↔
    ∃ c ∈ calls, c.result rows (column c.column) = a := by
  rw [computeAll_eq hk, List.mem_eraseDups, List.mem_map]

theorem listed_computeAll : Listed rows (computeAll rows column calls []) :=
  listed_of_results hk fun _ ha =>
    ((mem_computeAll hk).mp ha).imp fun _ hc => ⟨hc.1, hc.2.symm⟩

/-- What tells the names of results apart tells the results apart. -/
theorem map_computeAll {β : Type} [BEq β] [LawfulBEq β] {f : AggregateResult → β}
    (hf : ∀ {c c' : AggregateCall} {name name'}, f (c.result rows name) = f (c'.result rows name') →
      c.name name = c'.name name') : (computeAll rows column calls []).map f =
        (calls.map fun c => f (c.result rows (column c.column))).eraseDups := by
  have hlisted : Listed rows (calls.map fun c => c.result rows (column c.column)) :=
    listed_of_results hk fun a ha => (List.mem_map.mp ha).imp fun c hc => ⟨hc.1, hc.2.symm⟩
  have hinj : ∀ a ∈ calls.map (fun c => c.result rows (column c.column)),
      ∀ b ∈ calls.map (fun c => c.result rows (column c.column)), f a = f b → a = b := by
    intro a ha b hb he
    obtain ⟨c, hc, rfl⟩ := List.mem_map.mp ha
    obtain ⟨c', hc', rfl⟩ := List.mem_map.mp hb
    exact hlisted.eq_result (hk c' hc') ha (hf he)
  rw [computeAll_eq hk, ← eraseDups_map hinj, List.map_map]
  rfl

theorem functions_computeAll :
    (computeAll rows column calls []).map (fun a => (a.function, a.column)) =
      (calls.map fun c => (c.function, column c.column)).eraseDups := by
  rw [map_computeAll hk]
  · simp only [AggregateCall.result]
  · intro c c' name name' he
    simp only [AggregateCall.result, Prod.mk.injEq] at he
    rw [AggregateCall.name, AggregateCall.name, he.1, he.2]

end

/-! ## Results by key -/

theorem resultKey_toList (name : String) :
    (resultKey name).toList = '\x7b' :: (name.toList ++ ['\x7d']) := by
  simp [resultKey]

theorem resultKey_inj {name name' : String} (h : resultKey name = resultKey name') :
    name = name' := by
  have hl := congrArg String.toList h
  rw [resultKey_toList, resultKey_toList] at hl
  exact String.toList_inj.mp (List.append_cancel_right (List.cons.inj hl).2)

/-- Every call finds its own value in the list, under its name. -/
theorem Listed.lookup {rows : Dataset} {computed : List AggregateResult}
    (h : Listed rows computed) {call : AggregateCall} {column : String}
    (hk : aggregateOfName? call.function = some call.kind)
    (hmem : call.result rows column ∈ computed) :
    (computed.map fun a => (a.key, a.value)).lookup (resultKey (call.name column)) =
      some (Aggregate.ofRows rows column call.kind none) := by
  induction computed with
  | nil => cases hmem
  | cons a rest ih =>
    rw [List.map_cons, List.lookup_cons]
    split
    · rename_i hkey
      have hname : a.name = call.name column := resultKey_inj (beq_iff_eq.mp hkey).symm
      rw [h.eq_result hk List.mem_cons_self hname]
      rfl
    · rename_i hkey
      refine ih (List.forall_mem_cons.mp h).2 ?_
      rcases List.mem_cons.mp hmem with rfl | hmem
      · simp [AggregateResult.key, AggregateCall.result] at hkey
      · exact hmem

end Tabular.Formula

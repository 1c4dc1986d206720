import Tabular.Proofs.Formula.Binding

/-!
# Aggregates taken out of a formula

`Extracts` says which tokens a token sequence becomes when its aggregates are computed: each
call, from the left, becomes one token that stands for the aggregate of its column, and the
other tokens are kept. The results are those of the calls, each once
(`computeCalls_extracts`).
-/
namespace Tabular.Formula

/-! ## Calls and what stands for them -/

/-- The aggregates that a formula may call. -/
def callable : List (String × AggregateKind) :=
  [("SUM", .sum), ("AVG", .avg), ("COUNT", .count), ("MIN", .min), ("MAX", .max)]

/-- The tokens are a call of an aggregate on a column. -/
structure IsCall (f opening column closing : Token) (kind : AggregateKind) : Prop where
  function : f.kind = .function
  named : (Text.upper f.value, kind) ∈ callable
  opens : opening.isParen '('
  column : column.kind = .column
  closes : closing.isParen ')'

/-- The token stands for an aggregate: it is a number that reads as the value, or for a null
a column of the aggregate's key, which the results send to null. -/
def Token.StandsFor (t : Token) (results : List (String × Option Float)) (key : String) :
    Option Float → Prop
  | some x => t.kind = .number ∧ Number.read? t.value = some x
  | none => t.kind = .column ∧ t.value = key ∧ results.lookup key = some none

/-- `Extracts rows available results ts out called`: the tokens `out` are `ts` with one token
for each call, from the left, at the offset of its function. Called are the functions with the
columns that the references mean. -/
inductive Extracts (rows : Dataset) (available : List String)
    (results : List (String × Option Float)) :
    List Token → List Token → List (String × String) → Prop
  | nil : Extracts rows available results [] [] []
  | call {f opening column closing rest kind name t out called} :
      IsCall f opening column closing kind → resolve column.value available = some name →
      t.offset = f.offset →
      t.StandsFor results (resultKey (Text.upper f.value ++ "_" ++ name))
        (Aggregate.ofRows rows name kind none) →
      Extracts rows available results rest out called →
      Extracts rows available results (f :: opening :: column :: closing :: rest) (t :: out)
        ((Text.upper f.value, name) :: called)
  | kept {t rest out called} :
      (∀ opening column closing after kind, rest = opening :: column :: closing :: after →
        ¬ IsCall t opening column closing kind) →
      Extracts rows available results rest out called →
      Extracts rows available results (t :: rest) (t :: out) called

theorem aggregateOfName?_eq_some {name : String} {kind : AggregateKind} :
    aggregateOfName? name = some kind ↔ (name, kind) ∈ callable := by
  simp only [aggregateOfName?, callable, List.mem_cons, Prod.mk.injEq, List.not_mem_nil, or_false]
  grind

theorem IsCall.ofTokens? {f opening column closing : Token} {kind : AggregateKind}
    (h : IsCall f opening column closing kind) :
    AggregateCall.ofTokens? f opening column closing =
      some ⟨Text.upper f.value, kind, column.value, f.offset⟩ :=
  ofTokens?_eq_some.mpr ⟨h.function, h.opens, h.column, h.closes, kind,
    aggregateOfName?_eq_some.mpr h.named, rfl⟩

theorem AggregateCall.standsFor (call : AggregateCall) (column : String) {value : Option Float}
    {results : List (String × Option Float)}
    (h : results.lookup (resultKey (call.name column)) = some value) :
    (call.token column value).StandsFor results (resultKey (call.name column)) value := by
  cases value with
  | some x => exact ⟨rfl, Number.read?_plain x⟩
  | none => exact ⟨rfl, rfl, h⟩

/-! ## What is taken out -/

/-- Calls that are replaced by tokens of their results are taken out, if the calls find these
among the results. -/
theorem extracts_segments {rows : Dataset} {available : List String}
    {results : List (String × Option Float)} {ts : List Token}
    (hknown : ∀ c ∈ calls ts, ∃ column, resolve c.column available = some column)
    (hresults : ∀ c ∈ calls ts,
      results.lookup (resultKey (c.name (spelled available c.column))) =
        some (Aggregate.ofRows rows (spelled available c.column) c.kind none)) :
    Extracts rows available results ts
      ((segments ts).map (Segment.render id (·.resultToken rows available)))
      ((calls ts).map fun c => (c.function, spelled available c.column)) := by
  induction ts using segments_induction with
  | nil => exact .nil
  | @token t rest ht ih =>
    rw [calls_alone ht] at hknown hresults ⊢
    rw [segments_alone ht, List.map_cons, Segment.render, t.rename_id]
    refine .kept (fun opening column closing after kind he hcall => ?_) (ih hknown hresults)
    have hnone := ht opening column closing after he
    rw [hcall.ofTokens?] at hnone
    cases hnone
  | @call f opening column closing c rest hc ih =>
    rw [calls_call hc] at hknown hresults ⊢
    rw [segments_call hc]
    obtain ⟨hf, ho, hcol, hcl, kind, hk, rfl⟩ := ofTokens?_eq_some.mp hc
    obtain ⟨⟨name, hname⟩, hknown⟩ := List.forall_mem_cons.mp hknown
    obtain ⟨hresult, hresults⟩ := List.forall_mem_cons.mp hresults
    rw [spelled_of_resolve hname] at hresult
    simp only [List.map_cons, Segment.render, AggregateCall.resultToken, spelled_of_resolve hname]
    refine .call ⟨hf, aggregateOfName?_eq_some.mp hk, ho, hcol, hcl⟩ hname ?_
      (AggregateCall.standsFor _ name hresult) (ih hknown hresults)
    rw [AggregateCall.offset_token]

/-- The tokens that computing the aggregates leaves stand for the calls, and the results are one
for each function and column called, in the order of first calls. No two of them share a key,
whatever their columns are. -/
theorem computeCalls_extracts {ts : List Token} {rows : Dataset} {available : List String}
    {e : Extraction} (h : computeCalls ts rows available = .ok e) :
    (∃ called, Extracts rows available e.results ts e.tokens called ∧
      FirstOccurrences called (e.computed.map fun a => (a.function, a.column))) ∧
    Listed rows e.computed ∧
    ∀ function ∈ aggregateNames, ∀ function' ∈ aggregateNames, ∀ column column',
      resultKey (function ++ "_" ++ column) = resultKey (function' ++ "_" ++ column') →
        function = function' ∧ column = column' := by
  have hk : ∀ c ∈ calls ts, aggregateOfName? c.function = some c.kind :=
    fun _ hc => function_of_mem_calls hc
  have hlisted : Listed rows (computeAll rows (spelled available) (calls ts) []) :=
    listed_computeAll hk
  obtain ⟨hknown, rfl⟩ := computeCalls_eq_ok.mp h
  refine ⟨⟨_, extracts_segments hknown fun c hc => ?_, ?_⟩, hlisted, ?_⟩
  · exact hlisted.lookup (hk c hc) ((mem_computeAll hk).mpr ⟨c, hc, rfl⟩)
  · rw [functions_computeAll hk]
    exact firstOccurrences_eraseDups _
  · intro function hf function' hf' column column' he
    exact name_inj hf hf' (resultKey_inj he)

/-- One result for two calls, and a null for a column without numbers. -/
theorem computeCalls_extracts_shared :
    let rows := [Row.ofList [("Net_Sum", .number 1.5), ("Note", .text "x")],
      Row.ofList [("Net_Sum", .number 2.0)]]
    let ts : List Token := [⟨.function, "sum", 0⟩, ⟨.paren, "(", 3⟩, ⟨.column, "net sum", 4⟩,
      ⟨.paren, ")", 11⟩, ⟨.operator, "*", 12⟩, ⟨.function, "SUM", 13⟩, ⟨.paren, "(", 16⟩,
      ⟨.column, "Net_Sum", 17⟩, ⟨.paren, ")", 24⟩, ⟨.operator, "+", 25⟩, ⟨.function, "AVG", 26⟩,
      ⟨.paren, "(", 29⟩, ⟨.column, "Note", 30⟩, ⟨.paren, ")", 34⟩]
    ∃ e, computeCalls ts rows ["Net_Sum", "Note"] = .ok e ∧
      e.tokens = [⟨.number, "3.5", 0⟩, ⟨.operator, "*", 12⟩, ⟨.number, "3.5", 13⟩,
        ⟨.operator, "+", 25⟩, ⟨.column, "\x7bAVG_Note\x7d", 26⟩] ∧
      e.computed = [⟨"SUM_Net_Sum", "SUM", "Net_Sum", some 3.5⟩,
        ⟨"AVG_Note", "AVG", "Note", none⟩] ∧ Listed rows e.computed := by
  intro rows ts
  have hrun : (computeCalls ts rows ["Net_Sum", "Note"]).toOption.map
      (fun e => (e.tokens, e.computed)) = some ([⟨.number, "3.5", 0⟩, ⟨.operator, "*", 12⟩,
        ⟨.number, "3.5", 13⟩, ⟨.operator, "+", 25⟩, ⟨.column, "\x7bAVG_Note\x7d", 26⟩],
        [⟨"SUM_Net_Sum", "SUM", "Net_Sum", some 3.5⟩, ⟨"AVG_Note", "AVG", "Note", none⟩]) := by
    decide +kernel
  cases he : computeCalls ts rows ["Net_Sum", "Note"] with
  | error _ => simp [he, Except.toOption] at hrun
  | ok e =>
    simp only [he, Except.toOption, Option.map_some, Option.some.injEq, Prod.mk.injEq] at hrun
    exact ⟨e, rfl, hrun.1, hrun.2, (computeCalls_extracts he).2.1⟩

end Tabular.Formula

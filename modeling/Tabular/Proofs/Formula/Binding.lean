import Tabular.Proofs.Formula.Language
import Tabular.Proofs.Formula.Memo
import Tabular.Proofs.Formula.Segments
import Tabular.Proofs.Number.ReadBack

/-!
# Formulas bound to columns

Compiling against a dataset and validating against its columns go through the same
steps. Both refuse the first reference that names no column, those in aggregate calls
before the others, and both convert a rendering of the formula (`compile_eq`,
`validate_eq`). They differ in the operand that an aggregate call becomes.
-/
namespace Tabular.Formula

/-- The data's spelling of a reference that names a column. -/
def spelled (available : List String) (name : String) : String :=
  (resolve name available).getD name

theorem spelled_of_resolve {available : List String} {name column : String}
    (h : resolve name available = some column) : spelled available name = column := by
  rw [spelled, h]
  rfl

/-- The first of some references that names no column. -/
def firstUnknown? (available names : List String) : Option String :=
  names.find? fun name => (resolve name available).isNone

theorem firstUnknown?_append (available names names' : List String) :
    firstUnknown? available (names ++ names') =
      (firstUnknown? available names).or (firstUnknown? available names') :=
  List.find?_append

theorem firstUnknown?_cons (available : List String) (name : String) (names : List String) :
    firstUnknown? available (name :: names) =
      if (resolve name available).isNone then some name else firstUnknown? available names := by
  rw [firstUnknown?, List.find?_cons]
  cases (resolve name available).isNone <;> rfl

theorem firstUnknown?_eq_none {available names : List String} :
    firstUnknown? available names = none ↔
      ∀ name ∈ names, ∃ column, resolve name available = some column := by
  simp [firstUnknown?, Option.ne_none_iff_exists']

theorem require_resolve (name : String) (available : List String) :
    require (resolve name available) name available =
      if (resolve name available).isNone then .error (.columnNotFound name available)
      else .ok (spelled available name) := by
  unfold require spelled
  cases resolve name available <;> rfl

/-! ## References in aggregate calls -/

section
variable {σ : Type}

/-- Calls replaced in the segments of a token sequence. -/
def replaceSegments (substitute : AggregateCall → σ → Except Error (Token × σ)) :
    List Segment → σ → Except Error (List Token × σ)
  | [], state => .ok ([], state)
  | .token t :: rest, state =>
    match replaceSegments substitute rest state with
    | .error e => .error e
    | .ok (tokens, state) => .ok (t :: tokens, state)
  | .call c :: rest, state =>
    match substitute c state with
    | .error e => .error e
    | .ok (token, state) =>
      match replaceSegments substitute rest state with
      | .error e => .error e
      | .ok (tokens, state) => .ok (token :: tokens, state)

theorem replaceSegments_tokens (substitute : AggregateCall → σ → Except Error (Token × σ))
    (ts : List Token) (state : σ) :
    replaceSegments substitute (ts.map .token) state = .ok (ts, state) := by
  induction ts with
  | nil => rfl
  | cons t rest ih => simp [replaceSegments, ih]

theorem replaceCalls_eq (substitute : AggregateCall → σ → Except Error (Token × σ))
    (ts : List Token) (state : σ) :
    replaceCalls substitute ts state = replaceSegments substitute (segments ts) state := by
  fun_induction segments ts generalizing state with
  | case1 f opening column closing rest call hcall ih =>
    cases hbound : substitute call state with
    | error e => simp only [replaceCalls, hcall, replaceSegments, hbound]
    | ok bound =>
      obtain ⟨token, next⟩ := bound
      cases hrest : replaceSegments substitute (segments rest) next with
      | error e => simp only [replaceCalls, hcall, replaceSegments, hbound, ih, hrest]
      | ok p => simp only [replaceCalls, hcall, replaceSegments, hbound, ih, hrest]
  | case2 f opening column closing rest hcall ih =>
    rw [replaceSegments]
    cases hrest : replaceSegments substitute (segments (opening :: column :: closing :: rest))
        state with
    | error e => simp only [replaceCalls, hcall, ih, hrest]
    | ok p => simp only [replaceCalls, hcall, ih, hrest]
  | case3 ts hshort =>
    rw [replaceSegments_tokens, replaceCalls]
    exact hshort

/-- A call on a column that its reference means; `token` and `next` may look at the
state. -/
def onColumn (available : List String) (token : AggregateCall → String → σ → Token)
    (next : AggregateCall → String → σ → σ) (call : AggregateCall) (state : σ) :
    Except Error (Token × σ) := do
  let column ← require (resolve call.column available) call.column available
  return (token call column state, next call column state)

theorem replaceSegments_onColumn {available : List String}
    {token : AggregateCall → String → σ → Token} {next : AggregateCall → String → σ → σ}
    {put : AggregateCall → Token} {good : σ → Prop} {segs : List Segment}
    (hput : ∀ c ∈ segs.filterMap Segment.call?, ∀ state, good state →
      token c (spelled available c.column) state = put c ∧
        good (next c (spelled available c.column) state)) {state : σ} (hs : good state) :
    replaceSegments (onColumn available token next) segs state =
      match firstUnknown? available ((segs.filterMap Segment.call?).map (·.column)) with
      | some name => .error (.columnNotFound name available)
      | none => .ok (segs.map (Segment.render id put),
          (segs.filterMap Segment.call?).foldl
            (fun state c => next c (spelled available c.column) state) state) := by
  induction segs generalizing state with
  | nil => rfl
  | cons segment rest ih =>
    cases segment with
    | token t =>
      have hcalls : (Segment.token t :: rest).filterMap Segment.call? =
          rest.filterMap Segment.call? := rfl
      rw [hcalls, replaceSegments, ih hput hs]
      cases firstUnknown? available ((rest.filterMap Segment.call?).map (·.column)) with
      | some name => rfl
      | none => simp [Segment.render, t.rename_id]
    | call c =>
      obtain ⟨hc, hrest⟩ := List.forall_mem_cons.mp hput
      obtain ⟨htoken, hnext⟩ := hc state hs
      have hcalls : (Segment.call c :: rest).filterMap Segment.call? =
          c :: rest.filterMap Segment.call? := rfl
      rw [hcalls, List.map_cons, firstUnknown?_cons, replaceSegments, onColumn, require_resolve]
      cases hc : (resolve c.column available).isNone with
      | true => rfl
      | false =>
        simp only [Bool.false_eq_true, if_false, bind, Except.bind, pure, Except.pure, htoken,
          ih hrest hnext]
        cases firstUnknown? available ((rest.filterMap Segment.call?).map (·.column)) with
        | some name => rfl
        | none => rfl

end

/-! ## References outside of aggregate calls -/

theorem resolveColumns_kept {available keys : List String} {t : Token}
    (h : t.kind = .column → t.value ∈ keys) (rest : List Token) (noted : List String) :
    resolveColumns available keys (t :: rest) noted =
      match resolveColumns available keys rest noted with
      | .error e => .error e
      | .ok (tokens, noted) => .ok (t :: tokens, noted) := by
  have hkept : t.kind ≠ .column ∨ keys.contains t.value := by
    by_cases hk : t.kind = .column
    · exact .inr (List.contains_iff_mem.mpr (h hk))
    · exact .inl hk
  cases hrest : resolveColumns available keys rest noted with
  | error e => simp only [resolveColumns, hkept, if_true, hrest]
  | ok p => simp only [resolveColumns, hkept, if_true, hrest]

theorem resolveColumns_render {available keys : List String} {put : AggregateCall → Token}
    {segs : List Segment}
    (hput : ∀ c ∈ segs.filterMap Segment.call?, (put c).kind = .column → (put c).value ∈ keys)
    (hbare : ∀ name ∈ segs.filterMap Segment.bare?, name ∉ keys) (noted : List String) :
    resolveColumns available keys (segs.map (Segment.render id put)) noted =
      match firstUnknown? available (segs.filterMap Segment.bare?) with
      | some name => .error (.columnNotFound name available)
      | none => .ok (segs.map (Segment.render (spelled available) put),
          (segs.filterMap Segment.bare?).foldl
            (fun noted name => appendNew (spelled available name) noted) noted) := by
  induction segs generalizing noted with
  | nil => rfl
  | cons segment rest ih =>
    cases segment with
    | call c =>
      obtain ⟨hc, hrest⟩ := List.forall_mem_cons.mp hput
      have hskip : (Segment.call c :: rest).filterMap Segment.bare? =
          rest.filterMap Segment.bare? := rfl
      rw [hskip] at hbare ⊢
      rw [List.map_cons, Segment.render, resolveColumns_kept hc, ih hrest hbare]
      cases firstUnknown? available (rest.filterMap Segment.bare?) with
      | some name => rfl
      | none => rfl
    | token t =>
      by_cases hk : t.kind = .column
      · have hcons : (Segment.token t :: rest).filterMap Segment.bare? =
            t.value :: rest.filterMap Segment.bare? := by simp [Segment.bare?, hk]
        rw [hcons] at hbare ⊢
        obtain ⟨ht, hrest⟩ := List.forall_mem_cons.mp hbare
        have hopen : ¬ (t.kind ≠ .column ∨ keys.contains t.value) := by simp [hk, ht]
        rw [List.map_cons, Segment.render, t.rename_id, resolveColumns, if_neg hopen,
          require_resolve, firstUnknown?_cons]
        cases hu : (resolve t.value available).isNone with
        | true => rfl
        | false =>
          simp only [Bool.false_eq_true, if_false, ih hput hrest]
          cases firstUnknown? available (rest.filterMap Segment.bare?) with
          | some name => rfl
          | none => simp [Segment.render, Token.rename, hk]
      · have hskip : (Segment.token t :: rest).filterMap Segment.bare? =
            rest.filterMap Segment.bare? := by simp [Segment.bare?, hk]
        rw [hskip] at hbare ⊢
        rw [List.map_cons, Segment.render, t.rename_id,
          resolveColumns_kept (fun h => absurd h hk), ih hput hbare]
        cases firstUnknown? available (rest.filterMap Segment.bare?) with
        | some name => rfl
        | none => simp [Segment.render, Token.rename_of_ne hk]

/-! ## The two renderings -/

/-- The token of a call's result reads as that number, or as the column of its key. -/
def AggregateCall.operand (call : AggregateCall) (column : String) : Option Float → Operand
  | some x => .number x
  | none => .column (resultKey (call.name column)) call.offset

theorem AggregateCall.reads_token (call : AggregateCall) (column : String)
    (value : Option Float) (rest : List Token) :
    Operand.Reads (call.token column value :: rest) (call.operand column value) rest := by
  cases value with
  | some x => exact .number rfl (Number.read?_plain x)
  | none => exact .column rfl

theorem AggregateCall.offset_token (call : AggregateCall) (column : String)
    (value : Option Float) : (call.token column value).offset = call.offset := by
  cases value <;> rfl

/-- The formula as it is converted against a dataset: a call becomes its result. -/
def computing (rows : Dataset) : Rendering where
  column := spelled (columns rows)
  call c :=
    let column := spelled (columns rows) c.column
    c.token column (Aggregate.ofRows rows column c.kind none)
  operand c :=
    let column := spelled (columns rows) c.column
    c.operand column (Aggregate.ofRows rows column c.kind none)
  reads c := c.reads_token _ _

theorem computing_column (rows : Dataset) :
    (computing rows).column = spelled (columns rows) := by simp only [computing]

theorem read?_one : Number.read? "1" = some 1.0 := by decide +kernel

/-- The formula as it is checked against columns: every call becomes the number one. -/
def checking (available : List String) : Rendering where
  column := spelled available
  call c := ⟨.number, "1", c.offset⟩
  operand _ := .number 1.0
  reads _ _ := .number rfl read?_one

theorem checking_column (available : List String) :
    (checking available).column = spelled available := by simp only [checking]

/-- The results of the calls in a token sequence. -/
def resultsOf (rows : Dataset) (ts : List Token) : List AggregateResult :=
  computeAll rows (spelled (columns rows)) (calls ts) []

/-- The columns among some references, added to a list in order of first reference. -/
def noteAll (available names noted : List String) : List String :=
  names.foldl (fun noted name => appendNew (spelled available name) noted) noted

theorem noteAll_append (available names names' noted : List String) :
    noteAll available (names ++ names') noted =
      noteAll available names' (noteAll available names noted) := List.foldl_append

theorem noteAll_nil (available names : List String) :
    noteAll available names [] = (names.map (spelled available)).eraseDups :=
  foldl_appendNew_eq (spelled available) names

theorem mem_noteAll {available names noted : List String} {name : String} :
    name ∈ noteAll available names noted ↔
      name ∈ noted ∨ ∃ n ∈ names, name = spelled available n := mem_foldl_appendNew

theorem not_braceless_resultKey (name : String) : ¬ Text.Braceless (resultKey name) := by
  intro h
  refine h '\x7b' ?_ (.inl rfl)
  rw [resultKey_toList]
  exact List.mem_cons_self

/-- Braces are blocked in formulas, so that no column reference has one. -/
theorem braceless_of_tokenize {formula : String} {ts : List Token} (h : tokenize formula = .ok ts)
    {t : Token} (ht : t ∈ ts) (hk : t.kind = .column) : Text.Braceless t.value := by
  intro c hc hb
  have hopen := not_isBlocked_of_tokenize h ht hk hc
  rcases hb with rfl | rfl <;> cases hopen

theorem not_mem_keys {name : String} (h : Text.Braceless name) (results : List AggregateResult) :
    name ∉ results.map AggregateResult.key := by
  intro hkey
  obtain ⟨a, -, rfl⟩ := List.mem_map.mp hkey
  exact not_braceless_resultKey a.name h

/-- No reference outside of calls is the key of a result. -/
theorem bareColumns_not_key {formula : String} {ts : List Token}
    (h : tokenize formula = .ok ts) (results : List AggregateResult) :
    ∀ name ∈ bareColumns ts, name ∉ results.map AggregateResult.key := by
  intro name hn
  obtain ⟨t, ht, hk, rfl⟩ := mem_references.mp (List.mem_append_right _ hn)
  exact not_mem_keys (braceless_of_tokenize h ht hk) results

/-- The results are those of the calls. -/
theorem mem_resultsOf {rows : Dataset} {ts : List Token} {a : AggregateResult} :
    a ∈ resultsOf rows ts ↔
      ∃ c ∈ calls ts, c.result rows (spelled (columns rows) c.column) = a :=
  mem_computeAll fun _ hc => function_of_mem_calls hc

theorem result_mem_resultsOf (rows : Dataset) {ts : List Token} {c : AggregateCall}
    (hc : c ∈ calls ts) :
    c.result rows (spelled (columns rows) c.column) ∈ resultsOf rows ts :=
  mem_resultsOf.mpr ⟨c, hc, rfl⟩

theorem listed_resultsOf (rows : Dataset) (ts : List Token) :
    Listed rows (resultsOf rows ts) :=
  listed_computeAll fun _ hc => function_of_mem_calls hc

/-- The token that a call becomes, which tells its result. -/
def AggregateCall.resultToken (call : AggregateCall) (rows : Dataset) (available : List String) :
    Token :=
  let column := spelled available call.column
  call.token column (Aggregate.ofRows rows column call.kind none)

theorem computeCalls_eq (ts : List Token) (rows : Dataset) (available : List String) :
    computeCalls ts rows available =
      match firstUnknown? available ((calls ts).map (·.column)) with
      | some name => .error (.columnNotFound name available)
      | none => .ok ⟨(segments ts).map (Segment.render id (·.resultToken rows available)),
          computeAll rows (spelled available) (calls ts) []⟩ := by
  have hput : ∀ c ∈ (segments ts).filterMap Segment.call?, ∀ computed, Listed rows computed →
      c.token (spelled available c.column)
          (c.compute rows (spelled available c.column) computed).1 =
        c.resultToken rows available ∧
      Listed rows (c.compute rows (spelled available c.column) computed).2 := by
    intro c hc computed hl
    have hk := function_of_mem_calls hc
    refine ⟨?_, hl.compute hk⟩
    rw [hl.compute_eq hk]
    rfl
  -- A result is shared by name, so the token of a call depends on the results before it
  -- only in form: `Listed` holds of them all along.
  have hcalls := @replaceSegments_onColumn _ available
    (fun call column computed => call.token column (call.compute rows column computed).1)
    (fun call column computed => (call.compute rows column computed).2)
    (·.resultToken rows available) (Listed rows) (segments ts) hput []
    fun _ ha => (List.not_mem_nil ha).elim
  have hrun : computeCalls ts rows available =
      (replaceCalls (onColumn available
        (fun call column computed => call.token column (call.compute rows column computed).1)
        (fun call column computed => (call.compute rows column computed).2)) ts []).bind
          fun p => .ok ⟨p.1, p.2⟩ := rfl
  rw [hrun, replaceCalls_eq, hcalls, calls]
  cases firstUnknown? available (((segments ts).filterMap Segment.call?).map (·.column)) with
  | some name => rfl
  | none => rfl

/-- The calls are computed when they are on columns that are there. -/
theorem computeCalls_eq_ok {ts : List Token} {rows : Dataset} {available : List String}
    {e : Extraction} : computeCalls ts rows available = .ok e ↔
      (∀ c ∈ calls ts, ∃ column, resolve c.column available = some column) ∧
        e = ⟨(segments ts).map (Segment.render id (·.resultToken rows available)),
          computeAll rows (spelled available) (calls ts) []⟩ := by
  have hknown : firstUnknown? available ((calls ts).map (·.column)) = none ↔
      ∀ c ∈ calls ts, ∃ column, resolve c.column available = some column := by
    rw [firstUnknown?_eq_none, List.forall_mem_map]
  rw [computeCalls_eq, ← hknown]
  cases firstUnknown? available ((calls ts).map (·.column)) with
  | some name => simp
  | none => simp [eq_comm]

/-- Over the columns of the data, what is replaced is the rendering of the calls. -/
theorem computeCalls_columns (ts : List Token) (rows : Dataset) :
    computeCalls ts rows (columns rows) =
      match firstUnknown? (columns rows) ((calls ts).map (·.column)) with
      | some name => .error (.columnNotFound name (columns rows))
      | none => .ok ⟨(segments ts).map (Segment.render id (computing rows).call),
          resultsOf rows ts⟩ := computeCalls_eq ts rows (columns rows)

/-- A formula is compiled when its references name columns and its rendering is converted. -/
theorem compile_eq {formula : String} {rows : Dataset} {ts : List Token}
    (h : tokenize formula = .ok ts) : Compiled.compile formula rows =
      match firstUnknown? (columns rows) (references ts) with
      | some name => .error (.columnNotFound name (columns rows))
      | none =>
        match Program.compile ((computing rows).tokens ts) with
        | .error e => .error (.eval e)
        | .ok program => .ok ⟨formula, program, resultsOf rows ts,
            noteAll (columns rows) (bareColumns ts) []⟩ := by
  have hkeys : ∀ c ∈ calls ts, ((computing rows).call c).kind = .column →
      ((computing rows).call c).value ∈ (resultsOf rows ts).map AggregateResult.key := by
    intro c hc hk
    have hkey := List.mem_map_of_mem (f := AggregateResult.key) (result_mem_resultsOf rows hc)
    simp only [computing] at hk ⊢
    cases hv : Aggregate.ofRows rows (spelled (columns rows) c.column) c.kind none with
    | some x => simp [hv, AggregateCall.token] at hk
    | none => exact hkey
  have hresolve := @resolveColumns_render (columns rows) _ _ _ hkeys
    (bareColumns_not_key h (resultsOf rows ts)) []
  rw [← bareColumns] at hresolve
  simp only [Compiled.compile, h, references, firstUnknown?_append, computeCalls_columns,
    Except.mapError, bind, Except.bind]
  cases firstUnknown? (columns rows) ((calls ts).map (·.column)) with
  | some name => rfl
  | none =>
    simp only [hresolve, Option.none_or]
    cases firstUnknown? (columns rows) (bareColumns ts) with
    | some name => rfl
    | none =>
      have htokens : (segments ts).map (Segment.render (spelled (columns rows))
          (computing rows).call) = (computing rows).tokens ts := by
        rw [Rendering.tokens, computing_column]
      simp only [htokens]
      cases Program.compile ((computing rows).tokens ts) with
      | error e => rfl
      | ok program => rfl

/-- What validating notes of the calls: their columns and their names. -/
theorem foldl_noted (available : List String) (cs : List AggregateCall)
    (state : List String × List String) :
    cs.foldl (fun state c => (appendNew (spelled available c.column) state.1,
        appendNew (c.name (spelled available c.column)) state.2)) state =
      (noteAll available (cs.map (·.column)) state.1,
        cs.foldl (fun names c => appendNew (c.name (spelled available c.column)) names) state.2) := by
  induction cs generalizing state with
  | nil => rfl
  | cons c rest ih => rw [List.foldl_cons, ih]; rfl

/-- A formula is valid when its references name columns and its rendering is converted. -/
theorem validate_eq {formula : String} {available : List String} {ts : List Token}
    (h : tokenize formula = .ok ts) : validate formula available =
      match firstUnknown? available (references ts) with
      | some name => .error (.columnNotFound name available)
      | none =>
        match Program.compile ((checking available).tokens ts) with
        | .error e => .error (.eval e)
        | .ok program => .ok ⟨ts,
            noteAll available (bareColumns ts) (noteAll available ((calls ts).map (·.column)) []),
            (calls ts).foldl
              (fun names c => appendNew (c.name (spelled available c.column)) names) [],
            program.display⟩ := by
  have hcalls := @replaceSegments_onColumn _ available
    (fun call _ _ => ⟨.number, "1", call.offset⟩)
    (fun call column state =>
      (appendNew column state.1, appendNew (call.name column) state.2))
    (checking available).call (fun _ => True) (segments ts) (fun _ _ _ _ => ⟨rfl, trivial⟩)
    ([], []) trivial
  have hresolve := @resolveColumns_render available [] (checking available).call (segments ts)
    (fun _ _ hk => by cases hk) (fun _ _ => List.not_mem_nil)
    (noteAll available ((calls ts).map (·.column)) [])
  rw [← calls, foldl_noted] at hcalls
  rw [← bareColumns] at hresolve
  have hrun : validate formula available = ((tokenize formula).mapError Error.scan).bind fun ts =>
      (replaceCalls (onColumn available (fun call _ _ => ⟨.number, "1", call.offset⟩)
        (fun call column (state : List String × List String) =>
          (appendNew column state.1, appendNew (call.name column) state.2))) ts ([], [])).bind
        fun p => (resolveColumns available [] p.1 p.2.1).bind fun q =>
          ((Program.compile q.1).mapError Error.eval).bind fun program =>
            .ok ⟨ts, q.2, p.2.2, program.display⟩ := rfl
  rw [hrun, h]
  simp only [Except.mapError, Except.bind, replaceCalls_eq, hcalls, references,
    firstUnknown?_append]
  cases firstUnknown? available ((calls ts).map (·.column)) with
  | some name => rfl
  | none =>
    simp only [hresolve, Option.none_or]
    cases firstUnknown? available (bareColumns ts) with
    | some name => rfl
    | none =>
      have htokens : (segments ts).map (Segment.render (spelled available)
          (checking available).call) = (checking available).tokens ts := by
        rw [Rendering.tokens, checking_column]
      simp only [htokens]
      cases Program.compile ((checking available).tokens ts) with
      | error e => rfl
      | ok program => rfl

/-- A valid formula refers to columns that are there, and they are noted, those of calls
first. -/
theorem columns_of_validate {formula : String} {available : List String} {summary : Summary}
    (h : validate formula available = .ok summary) :
    tokenize formula = .ok summary.tokens ∧
      (∀ name ∈ references summary.tokens, ∃ column, resolve name available = some column) ∧
      summary.columns = noteAll available (references summary.tokens) [] := by
  cases ht : tokenize formula with
  | error e => simp [validate, ht, Except.mapError, bind, Except.bind] at h
  | ok ts =>
    rw [validate_eq ht] at h
    split at h
    · cases h
    rename_i hnone
    split at h
    · cases h
    cases h
    refine ⟨rfl, firstUnknown?_eq_none.mp hnone, ?_⟩
    rw [references, noteAll_append]

end Tabular.Formula

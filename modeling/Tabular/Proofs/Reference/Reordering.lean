import Mathlib.Data.List.Nodup
import Mathlib.Data.List.Perm.Basic
import Tabular.Proofs.Chart.Names
import Tabular.Proofs.Formula.Agreement

/-!
# References among columns in another order

Every tier of the resolution takes the first column that matches. Only letter case lets two
columns match in one tier, so where no two of them differ in letter case alone the order of
columns does not matter (`resolve_congr`), and neither does it to formulas
(`Formula.validate_congr`, `Formula.compile_alike`).
-/
namespace Tabular

/-- No two names of some sort differ in letter case alone. -/
def ApartInCase (P : String → Prop) : Prop :=
  ∀ a b, P a → P b → Text.lower a = Text.lower b → a = b

theorem ApartInCase.mono {P Q : String → Prop} (h : ApartInCase P) (hPQ : ∀ name, Q name → P name) :
    ApartInCase Q :=
  fun a b ha hb => h a b (hPQ a ha) (hPQ b hb)

theorem apartInCase_of_nodup {available : List String} (h : (available.map Text.lower).Nodup) :
    ApartInCase (· ∈ available) :=
  fun _ _ ha hb he => List.inj_on_of_nodup_map h ha hb he

/-! ## First matches -/

section
variable {available available' : List String}

theorem find?_eq_some_of_unique {α : Type} {p : α → Bool} {l : List α}
    (h : ∀ a ∈ l, ∀ b ∈ l, p a → p b → a = b) {a : α} :
    l.find? p = some a ↔ a ∈ l ∧ p a := by
  refine ⟨fun ha => ⟨List.mem_of_find?_eq_some ha, List.find?_some ha⟩, fun ⟨ha, hp⟩ => ?_⟩
  have hsome : (l.find? p).isSome := List.find?_isSome.mpr ⟨a, ha, hp⟩
  obtain ⟨b, hb⟩ := Option.isSome_iff_exists.mp hsome
  rw [hb, h b (List.mem_of_find?_eq_some hb) a ha (List.find?_some hb) hp]

/-- The first match does not depend on the order where there is no second one. -/
theorem find?_congr_of_unique {α : Type} {p : α → Bool} {l l' : List α}
    (hmem : ∀ a, a ∈ l ↔ a ∈ l') (h : ∀ a ∈ l, ∀ b ∈ l, p a → p b → a = b) :
    l.find? p = l'.find? p := by
  have h' : ∀ a ∈ l', ∀ b ∈ l', p a → p b → a = b := fun a ha b hb =>
    h a ((hmem a).mpr ha) b ((hmem b).mpr hb)
  refine Option.ext fun a => ?_
  rw [find?_eq_some_of_unique h, find?_eq_some_of_unique h', hmem]

theorem findSpelling_congr (hmem : ∀ name, name ∈ available ↔ name ∈ available')
    (h : ApartInCase (· ∈ available)) (name : String) :
    findSpelling name available = findSpelling name available' := by
  have hexact : available.find? (· == name) = available'.find? (· == name) :=
    find?_congr_of_unique hmem fun a _ b _ ha hb =>
      (beq_iff_eq.mp ha).trans (beq_iff_eq.mp hb).symm
  have hcase : findIgnoringCase name available = findIgnoringCase name available' :=
    find?_congr_of_unique hmem fun a ha b hb hpa hpb =>
      h a b ha hb ((beq_iff_eq.mp hpa).trans (beq_iff_eq.mp hpb).symm)
  rw [findSpelling, findSpelling, hexact, hcase]

/-- What a reference means depends on the columns that there are, and not on their order. -/
theorem resolve_congr (hmem : ∀ name, name ∈ available ↔ name ∈ available')
    (h : ApartInCase (· ∈ available)) (reference : String) :
    resolve reference available = resolve reference available' := by
  simp only [resolve, findSpelling_congr hmem h]

/-- Two columns that differ in letter case alone: the first of them is meant. -/
example : resolve "TOTAL" ["total", "Total"] = some "total" ∧
    resolve "TOTAL" ["Total", "total"] = some "Total" := by decide +kernel

end

/-! ## Formulas -/

namespace Formula

/-- Two datasets refuse a formula alike: for the same reference that means no column, or for
the same fault in the formula. -/
inductive SameRefusal (rows rows' : Dataset) : Error → Error → Prop
  | unknown (name) : SameRefusal rows rows'
      (.columnNotFound name (columns rows)) (.columnNotFound name (columns rows'))
  | fault {e e' : Error} : SameFailure e e' → SameRefusal rows rows' e e'

/-- Two compiled formulas refer to the same columns, in rows and in aggregates. -/
structure Compiled.SameReferences (f f' : Compiled) : Prop where
  reads : f.reads = f'.reads
  aggregates : f.aggregates.map (fun a => (a.function, a.column)) =
    f'.aggregates.map (fun a => (a.function, a.column))

section
variable {available available' : List String} {rows rows' : Dataset}

theorem spelled_congr (h : ∀ name, resolve name available = resolve name available') :
    spelled available = spelled available' :=
  funext fun name => by rw [spelled, spelled, h]

theorem firstUnknown?_congr (h : ∀ name, resolve name available = resolve name available') :
    firstUnknown? available = firstUnknown? available' :=
  funext fun names => by simp only [firstUnknown?, h]

theorem validate_congr (h : ∀ name, resolve name available = resolve name available')
    (formula : String) :
    (validate formula available).toOption = (validate formula available').toOption := by
  cases ht : tokenize formula with
  | error e =>
    have hscan : ∀ names, validate formula names = .error (.scan e) := fun names => by
      rw [validate, ht]; rfl
    rw [hscan, hscan]
  | ok ts =>
    have hrendered : checking available = checking available' := by
      simp only [checking, spelled_congr h]
    rw [validate_eq ht, validate_eq ht, firstUnknown?_congr h, hrendered]
    cases firstUnknown? available' (references ts) with
    | some name => rfl
    | none => simp only [noteAll, spelled_congr h]

/-- Where references mean the same columns, two datasets render a formula alike: aggregates may
have other results, but they stand in the same places. -/
theorem computing_alike (h : ∀ name, resolve name (columns rows) = resolve name (columns rows'))
    (ts : List Token) :
    List.Forall₂ Token.Alike ((computing rows).tokens ts) ((computing rows').tokens ts) := by
  rw [Rendering.tokens, Rendering.tokens, List.forall₂_map_left_iff, List.forall₂_map_right_iff,
    List.forall₂_same]
  intro segment _
  cases segment with
  | token t =>
    rw [Segment.render, Segment.render, computing_column, computing_column, spelled_congr h]
    exact .same _
  | call c =>
    refine .operands ?_ ((computing rows).reads c []) ((computing rows').reads c [])
    exact (c.offset_token _ _).trans (c.offset_token _ _).symm

/-- Where references mean the same columns, two datasets refuse a formula alike or compile it to
the same columns. -/
theorem compile_alike (h : ∀ name, resolve name (columns rows) = resolve name (columns rows'))
    (formula : String) :
    (∃ e e', Compiled.compile formula rows = .error e ∧
      Compiled.compile formula rows' = .error e' ∧ SameRefusal rows rows' e e') ∨
    ∃ f f', Compiled.compile formula rows = .ok f ∧ Compiled.compile formula rows' = .ok f' ∧
      f.SameReferences f' := by
  cases ht : tokenize formula with
  | error e =>
    refine .inl ⟨.scan e, .scan e, ?_, ?_, .fault (.same _)⟩
    · rw [Compiled.compile, ht]; rfl
    · rw [Compiled.compile, ht]; rfl
  | ok ts =>
    rw [compile_eq ht, compile_eq ht, firstUnknown?_congr h]
    cases firstUnknown? (columns rows') (references ts) with
    | some name => exact .inl ⟨_, _, rfl, rfl, .unknown name⟩
    | none =>
      have hlockstep := compile_lockstep (computing_alike h ts)
      generalize Program.compile ((computing rows).tokens ts) = compiled at *
      generalize Program.compile ((computing rows').tokens ts) = compiled' at *
      cases hlockstep with
      | error he => exact .inl ⟨_, _, rfl, rfl, .fault (.eval he)⟩
      | ok _ =>
        refine .inr ⟨_, _, rfl, rfl, ?_, ?_⟩
        · simp only [noteAll, spelled_congr h]
        · simp only [resultsOf, functions_computeAll fun _ hc => function_of_mem_calls hc,
            spelled_congr h]

end
end Formula
end Tabular

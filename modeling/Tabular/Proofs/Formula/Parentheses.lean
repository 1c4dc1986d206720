import Tabular.Proofs.Formula.Language

/-!
# Parentheses that do not match

Parentheses go wrong at the first that nests too deep or closes nothing, or else at the
innermost that is never closed. All of this is said by counting, and the check on the tokens,
which keeps a stack, refuses them there (`refuseUnbalanced_eq_error`).
-/
namespace Tabular.Formula

/-- With `depth` parentheses open before them, the tokens close no more than are open and
never have more than `limit` open. Some may stay open. -/
def StaysWithin (limit depth : Nat) (ts : List Token) : Prop :=
  ∀ n, closings (ts.take n) ≤ depth + openings (ts.take n) ∧
    depth + openings (ts.take n) ≤ limit + closings (ts.take n)

/-- `Unbalanced limit finish tokens e`: the first parenthesis that is nested too deep or
closes nothing, or else the innermost that is still open at the end: all behind it match. -/
inductive Unbalanced (limit finish : Nat) (tokens : List Token) : ScanError → Prop
  | tooDeep {before t after} : tokens = before ++ t :: after → StaysWithin limit 0 before →
      t.isParen '(' → openings before = closings before + limit →
      Unbalanced limit finish tokens ⟨.tooDeep, t.offset⟩
  | unmatched {before t after} : tokens = before ++ t :: after → StaysWithin limit 0 before →
      t.isParen ')' → openings before = closings before →
      Unbalanced limit finish tokens ⟨.unmatchedClose, t.offset⟩
  | unclosed {before t after} : tokens = before ++ t :: after → StaysWithin limit 0 tokens →
      t.isParen '(' → ParensMatch limit after →
      Unbalanced limit finish tokens ⟨.unclosedParen t.offset finish, t.offset⟩

theorem openings_append (ts us : List Token) : openings (ts ++ us) = openings ts + openings us :=
  List.countP_append

theorem closings_append (ts us : List Token) : closings (ts ++ us) = closings ts + closings us :=
  List.countP_append

theorem StaysWithin.mono {limit depth : Nat} {ts us : List Token}
    (h : StaysWithin limit depth (ts ++ us)) : StaysWithin limit depth ts := by
  intro n
  have hn := h (min n ts.length)
  rwa [List.take_append_of_le_length (Nat.min_le_right _ _), ← List.take_eq_take_min] at hn

theorem staysWithin_cons {limit depth depth' : Nat} {t : Token} {ts : List Token}
    (ht : depth + openings [t] = depth' + closings [t]) :
    StaysWithin limit depth (t :: ts) ↔ depth ≤ limit ∧ StaysWithin limit depth' ts := by
  constructor
  · intro h
    refine ⟨by simpa [openings, closings] using (h 0).2, fun n => ?_⟩
    have hn := h (n + 1)
    rw [List.take_succ_cons, openings_cons, closings_cons] at hn
    omega
  · rintro ⟨hd, h⟩ n
    cases n with
    | zero => simpa [openings, closings] using hd
    | succ n =>
      rw [List.take_succ_cons, openings_cons, closings_cons]
      have := h n
      omega

/-- What one token does to the depth. -/
theorem openings_singleton (t : Token) : openings [t] = if t.isParen '(' then 1 else 0 := by
  by_cases h : t.isParen '(' <;> simp [openings, h]

theorem closings_singleton (t : Token) : closings [t] = if t.isParen ')' then 1 else 0 := by
  by_cases h : t.isParen ')' <;> simp [closings, h]

theorem not_opens_of_closes {t : Token} (h : t.isParen ')' = true) : t.isParen '(' = false := by
  rw [Bool.eq_false_iff]
  intro ho
  rw [not_isParen_both ho] at h
  cases h

section
variable {finish : Nat} {t : Token}

theorem refuseUnbalanced_opening (h : t.isParen '(' = true) {opened : List Nat}
    (hroom : opened.length < Limits.nestingDepth) (rest : List Token) :
    refuseUnbalanced finish opened (t :: rest) =
      refuseUnbalanced finish (t.offset :: opened) rest := by
  conv_lhs => unfold refuseUnbalanced
  simp [h, hroom]

theorem refuseUnbalanced_tooDeep (h : t.isParen '(' = true) {opened : List Nat}
    (hfull : Limits.nestingDepth ≤ opened.length) (rest : List Token) :
    refuseUnbalanced finish opened (t :: rest) = .error ⟨.tooDeep, t.offset⟩ := by
  unfold refuseUnbalanced
  simp [h, Nat.not_lt.mpr hfull]

theorem refuseUnbalanced_closing (h : t.isParen ')' = true) (position : Nat) (outer : List Nat)
    (rest : List Token) : refuseUnbalanced finish (position :: outer) (t :: rest) =
      refuseUnbalanced finish outer rest := by
  conv_lhs => unfold refuseUnbalanced
  simp [h, not_opens_of_closes h]

theorem refuseUnbalanced_unmatched (h : t.isParen ')' = true) (rest : List Token) :
    refuseUnbalanced finish [] (t :: rest) = .error ⟨.unmatchedClose, t.offset⟩ := by
  unfold refuseUnbalanced
  simp [h, not_opens_of_closes h]

theorem refuseUnbalanced_other (ho : ¬ t.isParen '(' = true) (hc : ¬ t.isParen ')' = true)
    (opened : List Nat) (rest : List Token) :
    refuseUnbalanced finish opened (t :: rest) = refuseUnbalanced finish opened rest := by
  conv_lhs => unfold refuseUnbalanced
  simp [ho, hc]

end

/-- A token that leaves the lower part `base` of the open parentheses alone is passed. -/
theorem refuseUnbalanced_cons {finish : Nat} {base inner : List Nat} {t : Token}
    (hlow : closings [t] ≤ inner.length + openings [t])
    (hhigh : inner.length + base.length + openings [t] ≤ Limits.nestingDepth + closings [t]) :
    ∃ inner' : List Nat, inner'.length + closings [t] = inner.length + openings [t] ∧
      ∀ rest, refuseUnbalanced finish (inner ++ base) (t :: rest) =
        refuseUnbalanced finish (inner' ++ base) rest := by
  rw [openings_singleton, closings_singleton] at hlow hhigh ⊢
  by_cases ho : t.isParen '(' = true
  · rw [if_pos ho, if_neg (by simp [not_isParen_both ho])] at hhigh ⊢
    have hroom : (inner ++ base).length < Limits.nestingDepth := by
      rw [List.length_append]
      omega
    exact ⟨t.offset :: inner, rfl, fun rest => refuseUnbalanced_opening ho hroom rest⟩
  · by_cases hc : t.isParen ')' = true
    · rw [if_neg ho, if_pos hc] at hlow ⊢
      cases inner with
      | nil => exact absurd hlow (Nat.not_succ_le_zero 0)
      | cons position inner =>
        exact ⟨inner, rfl, fun rest => refuseUnbalanced_closing hc position _ rest⟩
    · rw [if_neg ho, if_neg hc]
      exact ⟨inner, rfl, fun rest => refuseUnbalanced_other ho hc _ rest⟩

/-- Tokens that leave the lower part `base` of the open parentheses alone are passed. -/
theorem refuseUnbalanced_append {finish : Nat} {base inner : List Nat} {ts : List Token}
    (hlow : ∀ n, closings (ts.take n) ≤ inner.length + openings (ts.take n))
    (hhigh : ∀ n, inner.length + base.length + openings (ts.take n) ≤
      Limits.nestingDepth + closings (ts.take n)) :
    ∃ inner' : List Nat, inner'.length + closings ts = inner.length + openings ts ∧
      ∀ rest, refuseUnbalanced finish (inner ++ base) (ts ++ rest) =
        refuseUnbalanced finish (inner' ++ base) rest := by
  induction ts generalizing inner with
  | nil => exact ⟨inner, by simp [openings, closings], fun rest => rfl⟩
  | cons t ts ih =>
    obtain ⟨middle, hmiddle, hfirst⟩ :=
      @refuseUnbalanced_cons finish base inner t (hlow 1) (hhigh 1)
    have hcons : ∀ n, openings ((t :: ts).take (n + 1)) = openings [t] + openings (ts.take n) ∧
        closings ((t :: ts).take (n + 1)) = closings [t] + closings (ts.take n) := by
      intro n
      rw [List.take_succ_cons]
      exact ⟨openings_cons .., closings_cons ..⟩
    obtain ⟨inner', hlen, hrun⟩ := @ih middle
      (fun n => by have := hlow (n + 1); have := hcons n; omega)
      (fun n => by have := hhigh (n + 1); have := hcons n; omega)
    refine ⟨inner', ?_, fun rest => ?_⟩
    · rw [openings_cons, closings_cons]
      omega
    · rw [List.cons_append, hfirst, hrun]

theorem refuseUnbalanced_within {finish : Nat} {before : List Token}
    (h : StaysWithin Limits.nestingDepth 0 before) :
    ∃ opened : List Nat, opened.length + closings before = openings before ∧
      ∀ rest, refuseUnbalanced finish [] (before ++ rest) =
        refuseUnbalanced finish opened rest := by
  obtain ⟨opened, hlen, hrun⟩ := @refuseUnbalanced_append finish [] [] before
    (fun n => (h n).1) (fun n => (h n).2)
  simp only [List.append_nil, List.length_nil, Nat.zero_add] at hlen hrun
  exact ⟨opened, hlen, hrun⟩

theorem Unbalanced.refuseUnbalanced {finish : Nat} {tokens : List Token} {e : ScanError}
    (h : Unbalanced Limits.nestingDepth finish tokens e) :
    Formula.refuseUnbalanced finish [] tokens = .error e := by
  cases h with
  | @tooDeep before t after htokens hbefore ht hfull =>
    obtain ⟨opened, hlen, hrun⟩ := @refuseUnbalanced_within finish before hbefore
    rw [htokens, hrun, refuseUnbalanced_tooDeep ht (by omega)]
  | @unmatched before t after htokens hbefore ht hnone =>
    obtain ⟨opened, hlen, hrun⟩ := @refuseUnbalanced_within finish before hbefore
    obtain rfl : opened = [] := List.length_eq_zero_iff.mp (by omega)
    rw [htokens, hrun, refuseUnbalanced_unmatched ht]
  | @unclosed before t after htokens hall ht hmatch =>
    subst htokens
    obtain ⟨opened, hlen, hrun⟩ := @refuseUnbalanced_within finish before hall.mono
    -- The parenthesis and what is behind it stay within the limit, too.
    have hroom : ∀ n, opened.length + 1 + openings (after.take n) ≤
        Limits.nestingDepth + closings (after.take n) := by
      intro n
      have hn := (hall (before.length + (n + 1))).2
      rw [List.take_length_add_append, List.take_succ_cons, openings_append, closings_append,
        openings_cons, closings_cons, openings_singleton, closings_singleton, if_pos ht,
        not_isParen_both ht] at hn
      simp only [Bool.false_eq_true, if_false] at hn
      omega
    have hlt : opened.length < Limits.nestingDepth := by
      have h0 := hroom 0
      simp only [List.take_zero, openings, closings, List.countP_nil] at h0
      omega
    obtain ⟨inner, hin, hpass⟩ := @refuseUnbalanced_append finish (t.offset :: opened) [] after
      (fun n => by simpa using (hmatch.1 n).1)
      (fun n => by have := hroom n; simp only [List.length_nil, List.length_cons]; omega)
    have hempty := hmatch.2
    simp only [List.length_nil] at hin
    obtain rfl : inner = [] := List.length_eq_zero_iff.mp (by omega)
    have hend := hpass []
    rw [List.append_nil, List.nil_append] at hend
    rw [hrun, refuseUnbalanced_opening ht hlt, hend]
    rfl

/-- Tokens stay within the limit, or one of them is the first that does not. -/
theorem staysWithin_or (limit : Nat) {depth : Nat} (hd : depth ≤ limit) (ts : List Token) :
    StaysWithin limit depth ts ∨ ∃ before t after, ts = before ++ t :: after ∧
      StaysWithin limit depth before ∧
      ((t.isParen '(' ∧ depth + openings before = closings before + limit) ∨
        (t.isParen ')' ∧ depth + openings before = closings before)) := by
  have hnil : ∀ {d}, d ≤ limit → StaysWithin limit d [] := by
    intro d hd n
    simpa [openings, closings] using hd
  induction ts generalizing depth with
  | nil => exact .inl (hnil hd)
  | cons t ts ih =>
    -- A token that is not the first to leave the limit passes to the depth behind it.
    have hnext : ∀ depth', depth + openings [t] = depth' + closings [t] → depth' ≤ limit →
        StaysWithin limit depth (t :: ts) ∨ ∃ before u after, t :: ts = before ++ u :: after ∧
          StaysWithin limit depth before ∧
          ((u.isParen '(' ∧ depth + openings before = closings before + limit) ∨
            (u.isParen ')' ∧ depth + openings before = closings before)) := by
      intro depth' ht hd'
      rcases ih hd' with h | ⟨before, u, after, rfl, hbefore, hu⟩
      · exact Or.inl ((staysWithin_cons ht).mpr ⟨hd, h⟩)
      · refine Or.inr ⟨t :: before, u, after, rfl, (staysWithin_cons ht).mpr ⟨hd, hbefore⟩, ?_⟩
        rw [openings_cons, closings_cons]
        refine hu.imp (fun hu => ⟨hu.1, ?_⟩) (fun hu => ⟨hu.1, ?_⟩)
        · have := hu.2
          omega
        · have := hu.2
          omega
    by_cases ho : t.isParen '(' = true
    · have hc := not_isParen_both ho
      rcases Nat.lt_or_ge depth limit with hlt | hge
      · refine hnext (depth + 1) ?_ hlt
        simp [openings_singleton, closings_singleton, ho, hc]
      · refine .inr ⟨[], t, ts, rfl, hnil hd, .inl ⟨ho, ?_⟩⟩
        simp only [openings, closings, List.countP_nil]
        omega
    · by_cases hc : t.isParen ')' = true
      · cases depth with
        | zero => exact .inr ⟨[], t, ts, rfl, hnil hd, .inr ⟨hc, rfl⟩⟩
        | succ depth =>
          refine hnext depth ?_ (Nat.le_of_succ_le hd)
          simp [openings_singleton, closings_singleton, ho, hc]
      · refine hnext depth ?_ hd
        simp [openings_singleton, closings_singleton, ho, hc]

/-- Where more is opened than closed, the tokens behind the last such parenthesis match. -/
theorem innermost_or (ts : List Token) :
    (∀ n, openings (ts.drop n) ≤ closings (ts.drop n)) ∨
      ∃ before t after, ts = before ++ t :: after ∧ t.isParen '(' ∧
        (∀ n, closings (after.take n) ≤ openings (after.take n)) ∧
        openings after = closings after := by
  induction ts with
  | nil => exact .inl (by simp [openings, closings])
  | cons t ts ih =>
    rcases ih with h | ⟨before, u, after, rfl, hu⟩
    · by_cases hle : openings (t :: ts) ≤ closings (t :: ts)
      · refine .inl fun n => ?_
        cases n with
        | zero => exact hle
        | succ n => exact h n
      · have hall := h 0
        rw [List.drop_zero] at hall
        rw [openings_cons, closings_cons, openings_singleton, closings_singleton] at hle
        have ho : t.isParen '(' = true := by
          by_contra ho
          simp only [ho, if_false] at hle
          omega
        have heq : openings ts = closings ts := by
          simp only [ho, if_true, not_isParen_both ho, Bool.false_eq_true, if_false] at hle
          omega
        refine .inr ⟨[], t, ts, rfl, ho, fun n => ?_, heq⟩
        have hsplit := h n
        have hopen := openings_append (ts.take n) (ts.drop n)
        have hclose := closings_append (ts.take n) (ts.drop n)
        rw [List.take_append_drop] at hopen hclose
        omega
    · exact .inr ⟨t :: before, u, after, rfl, hu⟩

theorem exists_unbalanced {limit finish : Nat} {tokens : List Token}
    (h : ¬ ParensMatch limit tokens) : ∃ e, Unbalanced limit finish tokens e := by
  rcases staysWithin_or limit (Nat.zero_le limit) tokens with hall |
    ⟨before, t, after, htokens, hbefore, ⟨ht, hfull⟩ | ⟨ht, hnone⟩⟩
  · rcases innermost_or tokens with hnone | ⟨before, t, after, htokens, ht, hlow, heq⟩
    · refine absurd ⟨fun n => ?_, ?_⟩ h
      · have := hall n
        omega
      · have hle := hnone 0
        have hge := (hall tokens.length).1
        rw [List.drop_zero] at hle
        rw [List.take_length] at hge
        omega
    · refine ⟨_, .unclosed htokens hall ht ⟨fun n => ⟨hlow n, ?_⟩, heq⟩⟩
      have hn := (hall (before.length + (n + 1))).2
      have hb := (hall before.length).1
      rw [htokens, List.take_length_add_append, List.take_succ_cons, openings_append,
        closings_append, openings_cons, closings_cons, closings_singleton,
        not_isParen_both ht] at hn
      rw [htokens, List.take_left] at hb
      simp only [Bool.false_eq_true, if_false] at hn
      omega
  · exact ⟨_, .tooDeep htokens hbefore ht (by omega)⟩
  · exact ⟨_, .unmatched htokens hbefore ht (by omega)⟩

/-- Parentheses are refused at the first that goes wrong. -/
theorem refuseUnbalanced_eq_error {finish : Nat} {tokens : List Token} {e : ScanError} :
    refuseUnbalanced finish [] tokens = .error e ↔
      Unbalanced Limits.nestingDepth finish tokens e := by
  constructor
  · intro h
    have hne : ¬ ParensMatch Limits.nestingDepth tokens := by
      intro hmatch
      have hok := (@refuseUnbalanced_eq_ok finish [] tokens (Nat.zero_le _)).mpr
        (nests_zero.mpr hmatch)
      rw [h] at hok
      cases hok
    obtain ⟨e', he'⟩ := @exists_unbalanced _ finish _ hne
    have heq := he'.refuseUnbalanced
    rw [h] at heq
    cases heq
    exact he'
  · exact Unbalanced.refuseUnbalanced

end Tabular.Formula

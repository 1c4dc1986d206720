import Tabular.Proofs.Formula.Grammar

/-!
# Conversion to postfix form is the grammar

The conversion accepts exactly the token sequences of plain arithmetic, and what it
writes is the post-order of the parse tree. The invariant is `Taken`: once a part of
the grammar has been read, its operators are written out or wait on top of what was
held before it, and writing them out completes the part's post-order.
-/
namespace Tabular.Formula
open Conversion

/-- The step an operand is. -/
def Operand.item : Operand → Item
  | number x => .number x
  | column name offset => .column name offset

/-- The steps of a tree: operands from left to right, every operator after its
operands. -/
def Tree.postorder {α : Type} (item : α → Item) : Tree α → List Item
  | operand a => [item a]
  | call f offset inner => inner.postorder item ++ [.apply f offset]
  | group inner => inner.postorder item
  | negate offset inner => inner.postorder item ++ [.negate offset]
  | plus inner => inner.postorder item
  | binary op offset left right =>
    left.postorder item ++ right.postorder item ++ [.binary op offset]

theorem NumberFunction.ofName?_eq_some {name : String} {f : NumberFunction} :
    NumberFunction.ofName? name = some f ↔ name = f.name := by
  cases f <;> simp only [ofName?, NumberFunction.name] <;> grind

theorem NumberFunction.name_not_aggregate (f : NumberFunction) :
    aggregateNames.contains f.name = false := by cases f <;> decide

/-! ## Entries that wait -/

/-- Every entry is an operator that binds at least as tightly as `p`. -/
def Waiting (p : Nat) (held : List Held) : Prop :=
  ∀ h ∈ held, ∃ q, h.precedence? = some q ∧ p ≤ q

/-- The steps that entries become, in the order in which they are written out. -/
def written (held : List Held) : List Item := held.flatMap (·.item?.toList)

/-- The innermost entry is not written out before an operator of precedence `p`, nor
after a parenthesis that closes. -/
def HoldsBack (p : Nat) : List Held → Prop
  | [] => True
  | .function .. :: _ => False
  | h :: _ => ∀ q, h.precedence? = some q → q < p

theorem Waiting.mono {p q : Nat} {held : List Held} (h : Waiting q held) (hpq : p ≤ q) :
    Waiting p held := by
  intro e he
  obtain ⟨r, hr, hle⟩ := h e he
  exact ⟨r, hr, Nat.le_trans hpq hle⟩

theorem HoldsBack.mono {p q : Nat} {held : List Held} (h : HoldsBack p held) (hpq : p ≤ q) :
    HoldsBack q held := by
  cases held with
  | nil => trivial
  | cons e rest =>
    cases e with
    | function => exact h
    | _ => exact fun r hr => Nat.lt_of_lt_of_le (h r hr) hpq

theorem written_append (a b : List Held) : written (a ++ b) = written a ++ written b :=
  List.flatMap_append

theorem popTighter_waiting {p : Nat} {waiting : List Held} (h : Waiting p waiting)
    (out : List Item) (held : List Held) :
    popTighter p out (waiting ++ held) = popTighter p (out ++ written waiting) held := by
  induction waiting generalizing out with
  | nil => simp [written]
  | cons e rest ih =>
    obtain ⟨q, hq, hle⟩ := h e List.mem_cons_self
    rw [List.cons_append, popTighter, hq]
    simp only [Option.any_some, hle, decide_true, if_true]
    rw [ih (fun x hx => h x (List.mem_cons_of_mem _ hx))]
    simp [written]

theorem popTighter_holdsBack {p : Nat} {held : List Held} (h : HoldsBack p held)
    (out : List Item) : popTighter p out held = (out, held) := by
  cases held with
  | nil => rfl
  | cons e rest =>
    rw [popTighter, if_neg]
    cases e with
    | function => exact h.elim
    | openParen => simp [Held.precedence?]
    | _ => simpa [Held.precedence?] using h _ rfl

theorem popToOpen?_waiting {p : Nat} {waiting : List Held} (h : Waiting p waiting)
    (out : List Item) (held : List Held) :
    popToOpen? out (waiting ++ held) = popToOpen? (out ++ written waiting) held := by
  induction waiting generalizing out with
  | nil => simp [written]
  | cons e rest ih =>
    obtain ⟨q, hq, -⟩ := h e List.mem_cons_self
    have hrest := ih (fun x hx => h x (List.mem_cons_of_mem _ hx)) (out ++ e.item?.toList)
    cases e with
    | openParen => simp [Held.precedence?] at hq
    | _ => simpa [popToOpen?, written] using hrest

theorem popAll_waiting {p : Nat} {waiting : List Held} (h : Waiting p waiting)
    (out : List Item) : popAll out waiting = .ok (out ++ written waiting) := by
  induction waiting generalizing out with
  | nil => simp [written, popAll]
  | cons e rest ih =>
    obtain ⟨q, hq, -⟩ := h e List.mem_cons_self
    have hrest := ih (fun x hx => h x (List.mem_cons_of_mem _ hx)) (out ++ e.item?.toList)
    cases e with
    | openParen => simp [Held.precedence?] at hq
    | _ => simpa [popAll, written] using hrest

theorem popFunction_holdsBack {p : Nat} {held : List Held} (h : HoldsBack p held)
    (out : List Item) : popFunction out held = (out, held) := by
  cases held with
  | nil => rfl
  | cons e rest => cases e <;> first | rfl | exact h.elim

/-! ## Single tokens -/

theorem steps_operand {ts rest : List Token} {a : Operand} (h : Operand.Reads ts a rest)
    (out : List Item) (held : List Held) :
    steps ⟨out, held, true⟩ ts = steps ⟨out ++ [a.item], held, false⟩ rest := by
  cases h with
  | number hk hx =>
    simp [steps, step, hk, hx, needOperand, operand, Operand.item, bind, Except.bind, pure,
      Except.pure]
  | column hk =>
    simp [steps, step, hk, needOperand, operand, Operand.item, bind, Except.bind, pure,
      Except.pure]

theorem steps_open {t : Token} (h : t.isParen '(') (out : List Item) (held : List Held)
    (rest : List Token) : steps ⟨out, held, true⟩ (t :: rest) =
      steps ⟨out, .openParen t.offset :: held, true⟩ rest := by
  simp [steps, step, Token.kind_of_isParen h, h]

theorem steps_function {t opening : Token} {f : NumberFunction} (h : t.Calls f)
    (ho : opening.isParen '(') (out : List Item) (held : List Held) (rest : List Token) :
    steps ⟨out, held, true⟩ (t :: opening :: rest) =
      steps ⟨out, .function f t.offset :: held, true⟩ (opening :: rest) := by
  have hname : aggregateNames.contains (Text.upper t.value) = false :=
    NumberFunction.ofName?_eq_some.mp h.2 ▸ f.name_not_aggregate
  simp only [steps, step, h.1, needOperand, if_true, bind, Except.bind, function, hname, h.2,
    Bool.false_eq_true, if_false, List.head?_cons, Option.any_some, ho]

theorem steps_negate {t : Token} (h : t.Writes .sub) (out : List Item) (held : List Held)
    (rest : List Token) : steps ⟨out, held, true⟩ (t :: rest) =
      steps ⟨out, .negate t.offset :: held, true⟩ rest := by
  simp [steps, step, h.1, h.2, operator]

theorem steps_plus {t : Token} (h : t.Writes .add) (out : List Item) (held : List Held)
    (rest : List Token) :
    steps ⟨out, held, true⟩ (t :: rest) = steps ⟨out, held, true⟩ rest := by
  simp [steps, step, h.1, h.2, operator]

theorem steps_binary {t : Token} {op : Operator} (h : t.Writes op) (out : List Item)
    (held : List Held) (rest : List Token) : steps ⟨out, held, false⟩ (t :: rest) =
      steps ⟨(popTighter op.precedence out held).1,
        .binary op t.offset :: (popTighter op.precedence out held).2, true⟩ rest := by
  simp [steps, step, h.1, h.2, operator]

theorem steps_close {t : Token} (h : t.Closes) {out out' : List Item} {held held' : List Held}
    (hp : popToOpen? out held = some (out', held')) (rest : List Token) :
    steps ⟨out, held, false⟩ (t :: rest) =
      steps ⟨(popFunction out' held').1, (popFunction out' held').2, false⟩ rest := by
  simp [steps, step, h.1, h.2, close, hp]

/-! ## What is derived is converted -/

/-- Above `held`, steps have been written and operators wait that make up `items` after
`out`, and an operator has to follow. -/
def Taken (p : Nat) (out : List Item) (held : List Held) (items : List Item)
    (state : Conversion) : Prop :=
  ∃ output waiting, state = ⟨output, waiting ++ held, false⟩ ∧ Waiting p waiting ∧
    output ++ written waiting = out ++ items

/-- The least precedence of the operators that wait once a part has been read. -/
def Part.floor {α : Type} : Part α → Nat
  | factor => 3
  | level l => l.precedence
  | tail l _ => l.precedence

/-- The state in which a part is read. -/
def Part.Enters (out : List Item) (held : List Held) : Part Operand → Conversion → Prop
  | factor, state => state = ⟨out, held, true⟩
  | level _, state => state = ⟨out, held, true⟩
  | tail l left, state => Taken l.precedence out held (left.postorder Operand.item) state

theorem Level.enters_operand {l : Level} {out : List Item} {held : List Held}
    {state : Conversion} : (l.operand : Part Operand).Enters out held state ↔
      state = ⟨out, held, true⟩ := by cases l <;> rfl

theorem Level.precedence_le_floor {α : Type} (l : Level) :
    l.precedence ≤ (l.operand : Part α).floor := by
  cases l <;> simp [Level.precedence, Level.operand, Part.floor]

theorem Taken.mono {p q : Nat} {out : List Item} {held : List Held} {items : List Item}
    {state : Conversion} (h : Taken q out held items state) (hpq : p ≤ q) :
    Taken p out held items state := by
  obtain ⟨output, waiting, hs, hw, ho⟩ := h
  exact ⟨output, waiting, hs, hw.mono hpq, ho⟩

/-- An entry that was held waits in its turn once what stands above it is complete. -/
theorem Taken.push {p q r : Nat} {out : List Item} {entry : Held} {held : List Held}
    {before items : List Item} {state : Conversion}
    (h : Taken q (out ++ before) (entry :: held) items state) (hq : p ≤ q)
    (he : entry.precedence? = some r) (hr : p ≤ r) :
    Taken p out held (before ++ items ++ entry.item?.toList) state := by
  obtain ⟨output, waiting, rfl, hw, ho⟩ := h
  refine ⟨output, waiting ++ [entry], by simp, ?_, ?_⟩
  · intro e hmem
    rcases List.mem_append.mp hmem with hmem | hmem
    · exact hw.mono hq e hmem
    · exact ⟨r, List.mem_singleton.mp hmem ▸ he, hr⟩
  · rw [written_append, ← List.append_assoc, ho]
    simp [written]

/-- A binary operator calls out the operators of its left operand. -/
theorem Taken.steps_binary {p : Nat} {out items : List Item} {held : List Held}
    {state : Conversion} {t : Token} {op : Operator} (h : Taken p out held items state)
    (hw : t.Writes op) (hop : op.precedence = p) (hb : HoldsBack p held)
    (rest : List Token) : steps state (t :: rest) =
      steps ⟨out ++ items, .binary op t.offset :: held, true⟩ rest := by
  obtain ⟨output, waiting, rfl, hwait, ho⟩ := h
  subst hop
  rw [Formula.steps_binary hw, popTighter_waiting hwait, popTighter_holdsBack hb, ho]

/-- A closing parenthesis calls out the operators down to the open one. -/
theorem Taken.popToOpen? {p : Nat} {out items : List Item} {held : List Held} {offset : Nat}
    {state : Conversion} (h : Taken p out (.openParen offset :: held) items state) :
    Conversion.popToOpen? state.output state.held = some (out ++ items, held) := by
  obtain ⟨output, waiting, rfl, hw, ho⟩ := h
  rw [popToOpen?_waiting hw, ho]
  rfl

theorem Taken.expectsOperand {p : Nat} {out items : List Item} {held : List Held}
    {state : Conversion} (h : Taken p out held items state) :
    state.expectsOperand = false := by
  obtain ⟨output, waiting, rfl, -, -⟩ := h
  rfl

theorem taken_operand (p : Nat) (out items : List Item) (held : List Held) :
    Taken p out held items ⟨out ++ items, held, false⟩ :=
  ⟨out ++ items, [], rfl, by simp [Waiting], by simp [written]⟩

theorem Taken.steps_close {p : Nat} {out items : List Item} {held : List Held} {offset : Nat}
    {state : Conversion} {t : Token} (h : Taken p out (.openParen offset :: held) items state)
    (ht : t.Closes) (rest : List Token) : steps state (t :: rest) =
      steps ⟨(popFunction (out ++ items) held).1, (popFunction (out ++ items) held).2, false⟩
        rest := by
  have hp := h.popToOpen?
  obtain ⟨output, waiting, rfl, -, -⟩ := h
  exact Formula.steps_close ht hp rest

/-- Reading a part takes the conversion from where the part begins to where it has been
taken, whatever is held below. -/
theorem Derives.steps {part : Part Operand} {ts rest : List Token} {tree : Tree Operand}
    (h : Derives Operand.Reads part ts tree rest) (out : List Item) (held : List Held)
    (before : Conversion) (hb : HoldsBack part.ceiling held)
    (he : part.Enters out held before) :
    ∃ after, Taken part.floor out held (tree.postorder Operand.item) after ∧
      Conversion.steps before ts = Conversion.steps after rest := by
  induction h generalizing out held before with
  | @level l _ _ _ _ _ _ _ ihf iht =>
    obtain ⟨middle, hm, hs⟩ := ihf out held before
      (hb.mono (Nat.le_of_lt l.precedence_lt_operand)) (Level.enters_operand.mpr he)
    obtain ⟨after, ha, hs'⟩ := iht out held middle hb (hm.mono l.precedence_le_floor)
    exact ⟨after, ha, hs.trans hs'⟩
  | tailEnd => exact ⟨before, he, rfl⟩
  | @tailStep l left t op _ right _ _ _ hw hp _ _ ihr iht =>
    have hbin : HoldsBack (l.operand : Part Operand).ceiling (.binary op t.offset :: held) := by
      intro q hq
      cases hq
      exact hp ▸ l.precedence_lt_operand
    obtain ⟨middle, hm, hs⟩ := ihr (out ++ left.postorder Operand.item)
      (.binary op t.offset :: held) _ hbin (Level.enters_operand.mpr rfl)
    obtain ⟨after, ha, hs'⟩ := iht out held middle hb
      (hm.push l.precedence_le_floor rfl (Nat.le_of_eq hp.symm))
    refine ⟨after, ha, ?_⟩
    rw [he.steps_binary hw hp hb, hs, hs']
  | @operand _ a _ ha =>
    exact ⟨_, taken_operand _ _ [a.item] _, he ▸ steps_operand ha out held⟩
  | @call t f opening _ inner closing _ hc ho hclose _ ih =>
    obtain ⟨middle, hm, hs⟩ := ih out (.openParen opening.offset :: .function f t.offset :: held)
      _ (fun q hq => by cases hq) rfl
    refine ⟨_, taken_operand _ _ (inner.postorder _ ++ [.apply f t.offset]) _, ?_⟩
    rw [he, steps_function hc ho, steps_open ho, hs, hm.steps_close hclose]
    simp [popFunction]
  | @group opening _ inner closing _ ho hclose _ ih =>
    obtain ⟨middle, hm, hs⟩ := ih out (.openParen opening.offset :: held) _
      (fun q hq => by cases hq) rfl
    refine ⟨_, taken_operand _ _ (inner.postorder _) _, ?_⟩
    rw [he, steps_open ho, hs, hm.steps_close hclose, popFunction_holdsBack hb]
  | @negate t _ inner _ hw _ ih =>
    obtain ⟨after, ha, hs⟩ := ih (out ++ []) (.negate t.offset :: held) _
      (fun q hq => by cases hq; decide) rfl
    refine ⟨after, ha.push (Nat.le_refl 3) rfl (Nat.le_refl 3), ?_⟩
    rw [he, steps_negate hw, ← hs, List.append_nil]
  | plus hw _ ih =>
    obtain ⟨after, ha, hs⟩ := ih out held _ hb rfl
    exact ⟨after, ha, by rw [he, steps_plus hw, hs]⟩

/-- A token sequence with a parse tree is converted to the tree's post-order. -/
theorem Parses.compile {ts : List Token} {tree : Tree Operand}
    (h : Parses Operand.Reads ts tree) :
    Program.compile ts = .ok (tree.postorder Operand.item) := by
  obtain ⟨after, ht, hs⟩ := Derives.steps h [] [] _ trivial rfl
  obtain ⟨output, waiting, rfl, hw, ho⟩ := ht
  have hp := popAll_waiting hw output
  rw [ho] at hp
  simp only [List.append_nil, List.nil_append, Conversion.steps] at hs hp
  simp [Program.compile, hs, Conversion.program, hp]

/-! ## What is converted can be derived -/

/-- The conversion goes through the tokens and ends with a program. -/
def Accepts (state : Conversion) (ts : List Token) : Prop :=
  ∃ final finish program, Conversion.steps state ts = .ok final ∧
    final.program finish = .ok program

theorem Accepts.congr {a b : Conversion} {ts us : List Token} (h : Accepts a ts)
    (he : Conversion.steps a ts = Conversion.steps b us) : Accepts b us := by
  obtain ⟨final, finish, program, hs, hp⟩ := h
  exact ⟨final, finish, program, he ▸ hs, hp⟩

theorem Accepts.step {state : Conversion} {t : Token} {rest : List Token}
    (h : Accepts state (t :: rest)) :
    ∃ next, Conversion.step state t rest.head? = .ok next := by
  obtain ⟨final, finish, program, hs, -⟩ := h
  rw [Conversion.steps] at hs
  split at hs
  · rename_i next hnext
    exact ⟨next, hnext⟩
  · cases hs

theorem not_mem_of_popAll {held : List Held} {out items : List Item}
    (h : popAll out held = .ok items) (offset : Nat) : Held.openParen offset ∉ held := by
  induction held generalizing out with
  | nil => simp
  | cons e rest ih =>
    cases e with
    | openParen => simp [popAll] at h
    | _ => simpa using ih h

theorem Accepts.nil {state : Conversion} (h : Accepts state []) :
    state.expectsOperand = false ∧ ∀ offset, Held.openParen offset ∉ state.held := by
  obtain ⟨final, finish, program, hs, hp⟩ := h
  cases hs
  unfold Conversion.program at hp
  split at hp
  · cases hp
  · rename_i he
    exact ⟨by simpa using he, not_mem_of_popAll hp⟩

/-- After an operand there is an operator, a closing parenthesis or nothing. -/
theorem Accepts.next {state : Conversion} {ts : List Token} (h : Accepts state ts)
    (he : state.expectsOperand = false) :
    ts = [] ∨ (∃ t op rest, ts = t :: rest ∧ t.Writes op) ∨
      ∃ t rest, ts = t :: rest ∧ t.Closes := by
  cases ts with
  | nil => exact .inl rfl
  | cons t rest =>
    obtain ⟨next, hn⟩ := h.step
    unfold Conversion.step at hn
    split at hn
    case h_4 hk =>
      split at hn
      · rename_i op hop
        exact .inr (.inl ⟨t, op, rest, rfl, hk, hop⟩)
      · cases hn
    case h_5 hk =>
      split at hn
      · simp [he] at hn
      · rename_i hp
        exact .inr (.inr ⟨t, rest, rfl, hk, by simpa using hp⟩)
    all_goals simp [needOperand, he, bind, Except.bind] at hn

/-- Where an operand is expected there is one, or a function before its parenthesis, an
opening parenthesis or a sign. -/
theorem Accepts.first {out : List Item} {held : List Held} {t : Token} {rest : List Token}
    (h : Accepts ⟨out, held, true⟩ (t :: rest)) :
    (∃ a, Operand.Reads (t :: rest) a rest) ∨
      (∃ f opening us, t.Calls f ∧ rest = opening :: us ∧ opening.isParen '(') ∨
      t.isParen '(' ∨ t.Writes .sub ∨ t.Writes .add := by
  obtain ⟨next, hn⟩ := h.step
  unfold Conversion.step at hn
  split at hn
  case h_1 hk =>
    cases hx : Number.read? t.value with
    | none => simp [needOperand, hx, bind, Except.bind, throw, throwThe, MonadExceptOf.throw] at hn
    | some x => exact .inl ⟨_, .number hk hx⟩
  case h_2 hk => exact .inl ⟨_, .column hk⟩
  case h_3 hk =>
    simp only [needOperand, if_true, bind, Except.bind, function] at hn
    split at hn
    · cases hn
    · split at hn
      · cases hn
      · rename_i f hf
        cases rest with
        | nil => simp at hn
        | cons opening us =>
          split at hn
          · rename_i ho
            exact .inr (.inl ⟨f, opening, us, ⟨hk, hf⟩, rfl, by simpa using ho⟩)
          · cases hn
  case h_4 hk =>
    split at hn
    · rename_i op hop
      cases op with
      | sub => exact .inr (.inr (.inr (.inl ⟨hk, hop⟩)))
      | add => exact .inr (.inr (.inr (.inr ⟨hk, hop⟩)))
      | _ => simp [operator] at hn
    · cases hn
  case h_5 hk =>
    split at hn
    · rename_i hp
      exact .inr (.inr (.inl hp))
    · simp [close] at hn

/-- The part stands at the front of any tokens that are accepted where it may begin,
and it is read to its end. -/
def Yields (part : Part Operand) (ts : List Token) : Prop :=
  ∀ out held, HoldsBack part.ceiling held → Accepts ⟨out, held, true⟩ ts →
    ∃ tree rest, Derives Operand.Reads part ts tree rest ∧ Stops part.ceiling rest

theorem Derives.length_le {part : Part Operand} {ts rest : List Token} {tree : Tree Operand}
    (h : Derives Operand.Reads part ts tree rest) : rest.length ≤ ts.length := by
  induction h with
  | level _ _ ihf iht => exact Nat.le_trans iht ihf
  | tailEnd => exact Nat.le_refl _
  | operand ha => cases ha <;> simp
  | _ => simp only [List.length_cons] at *; omega

/-- Between parentheses stands an expression. -/
theorem Yields.inner {ts : List Token} (h : Yields (.level .sum) ts) {out : List Item}
    {held : List Held} {offset : Nat}
    (ha : Accepts ⟨out, .openParen offset :: held, true⟩ ts) :
    ∃ inner closing rest, closing.Closes ∧
      Derives Operand.Reads (.level .sum) ts inner (closing :: rest) := by
  have hb : HoldsBack Level.sum.precedence (.openParen offset :: held) := fun q hq => by cases hq
  obtain ⟨inner, rest, hd, hstops⟩ := h out _ hb ha
  obtain ⟨after, htaken, hs⟩ := hd.steps out _ _ hb rfl
  have ha' := ha.congr hs
  rcases ha'.next htaken.expectsOperand with rfl | ⟨t, op, rest, rfl, hw⟩ | ⟨t, rest, rfl, hc⟩
  · obtain ⟨output, waiting, rfl, -, -⟩ := htaken
    exact absurd (by simp) (ha'.nil.2 offset)
  · exact absurd (hstops t op rest rfl hw) (by cases op <;> decide)
  · exact ⟨inner, t, rest, hc, hd⟩

theorem holdsBack_negate (offset : Nat) (held : List Held) :
    HoldsBack 4 (.negate offset :: held) := by
  intro q hq
  cases hq
  decide

theorem yields_factor {ts : List Token} (ih : ∀ us : List Token, us.length < ts.length →
    Yields .factor us ∧ Yields (.level .sum) us) : Yields .factor ts := by
  intro out held hb ha
  suffices h : ∃ tree rest, Derives Operand.Reads .factor ts tree rest by
    obtain ⟨tree, rest, hd⟩ := h
    exact ⟨tree, rest, hd, stops_factor rest⟩
  cases ts with
  | nil => exact absurd ha.nil.1 (by simp)
  | cons t rest =>
    rcases ha.first with ⟨a, hr⟩ | ⟨f, opening, us, hf, rfl, ho⟩ | ho | hw | hw
    · exact ⟨_, rest, .operand hr⟩
    · have ha' := ha.congr ((steps_function hf ho out held us).trans (steps_open ho out _ us))
      have hshort : us.length < (t :: opening :: us).length := by
        simp only [List.length_cons]
        omega
      obtain ⟨inner, closing, rest', hc, hd⟩ := (ih us hshort).2.inner ha'
      exact ⟨_, rest', .call hf ho hc hd⟩
    · have ha' := ha.congr (steps_open ho out held rest)
      obtain ⟨inner, closing, rest', hc, hd⟩ := (ih rest (by simp)).2.inner ha'
      exact ⟨_, rest', .group ho hc hd⟩
    · have ha' := ha.congr (steps_negate hw out held rest)
      obtain ⟨inner, rest', hd, -⟩ := (ih rest (by simp)).1 out _ (holdsBack_negate _ held) ha'
      exact ⟨_, rest', .negate hw hd⟩
    · have ha' := ha.congr (steps_plus hw out held rest)
      obtain ⟨inner, rest', hd, -⟩ := (ih rest (by simp)).1 out _ hb ha'
      exact ⟨_, rest', .plus hw hd⟩

/-- An operator that may follow an operand of a level is of that level or below it. -/
theorem Level.precedence_of_lt_operand {l : Level} {op : Operator}
    (h : op.precedence < (l.operand : Part Operand).ceiling) :
    op.precedence = l.precedence ∨ op.precedence < l.precedence := by
  cases l <;> cases op <;> simp_all [Level.operand, Part.ceiling, Level.precedence,
    Operator.precedence]

theorem holdsBack_binary {l : Level} {op : Operator} (h : op.precedence = l.precedence)
    (offset : Nat) (held : List Held) :
    HoldsBack (l.operand : Part Operand).ceiling (.binary op offset :: held) := by
  intro q hq
  cases hq
  exact h ▸ l.precedence_lt_operand

/-- The tail of a level is read up to an operator below the level, a closing parenthesis
or the end. -/
theorem yields_tail {l : Level} {ts : List Token}
    (operands : ∀ us : List Token, us.length < ts.length → Yields l.operand us)
    {left : Tree Operand} {out : List Item} {held : List Held} {state : Conversion}
    (hb : HoldsBack l.precedence held)
    (ht : Taken l.precedence out held (left.postorder Operand.item) state)
    (hstops : Stops (l.operand : Part Operand).ceiling ts) (ha : Accepts state ts) :
    ∃ tree rest, Derives Operand.Reads (.tail l left) ts tree rest ∧
      Stops l.precedence rest := by
  rcases ha.next ht.expectsOperand with rfl | ⟨t, op, us, rfl, hw⟩ | ⟨t, us, rfl, hc⟩
  · exact ⟨left, [], .tailEnd, stops_nil _⟩
  · rcases l.precedence_of_lt_operand (hstops t op us rfl hw) with hp | hp
    -- An operator of the level takes the tree so far as its left operand.
    · have hbin := holdsBack_binary hp t.offset held
      have ha' := ha.congr (ht.steps_binary hw hp hb us)
      obtain ⟨right, between, hr, hrs⟩ := operands us (by simp) _ _ hbin ha'
      obtain ⟨middle, hm, hs⟩ := hr.steps _ _ _ hbin (Level.enters_operand.mpr rfl)
      have hm' : Taken l.precedence out held
          ((Tree.binary op t.offset left right).postorder Operand.item) middle :=
        hm.push l.precedence_le_floor rfl (Nat.le_of_eq hp.symm)
      have hle : between.length < (t :: us).length := Nat.lt_succ_of_le hr.length_le
      obtain ⟨tree, rest, hd, hrest⟩ := yields_tail
        (fun vs hv => operands vs (Nat.lt_trans hv hle)) hb hm' hrs (ha'.congr hs)
      exact ⟨tree, rest, .tailStep hw hp hr hd, hrest⟩
    · exact ⟨left, t :: us, .tailEnd, hw.stops hp us⟩
  · exact ⟨left, t :: us, .tailEnd, hc.stops _ us⟩
termination_by ts.length

theorem yields_level {l : Level} {ts : List Token}
    (operands : ∀ us : List Token, us.length ≤ ts.length → Yields l.operand us) :
    Yields (.level l) ts := by
  intro out held hb ha
  have hb' : HoldsBack (l.operand : Part Operand).ceiling held :=
    hb.mono (Nat.le_of_lt l.precedence_lt_operand)
  obtain ⟨first, between, hf, hfs⟩ := operands ts (Nat.le_refl _) out held hb' ha
  obtain ⟨middle, hm, hs⟩ := hf.steps out held _ hb' (Level.enters_operand.mpr rfl)
  have hle := hf.length_le
  obtain ⟨tree, rest, hd, hrest⟩ := yields_tail (fun us hu => operands us (by omega)) hb
    (hm.mono l.precedence_le_floor) hfs (ha.congr hs)
  exact ⟨tree, rest, .level hf hd, hrest⟩

theorem yields_expression (ts : List Token) :
    Yields .factor ts ∧ Yields (.level .sum) ts := by
  have hfactor : Yields .factor ts := yields_factor fun us _ => yields_expression us
  have shorter : ∀ us : List Token, us.length ≤ ts.length → Yields .factor us := by
    intro us hu
    rcases Nat.lt_or_eq_of_le hu with hlt | heq
    · exact (yields_expression us).1
    · exact yields_factor fun vs _ => yields_expression vs
  exact ⟨hfactor, yields_level fun us hu =>
    yields_level fun vs hv => shorter vs (Nat.le_trans hv hu)⟩
termination_by ts.length

/-- A token sequence that is converted has a parse tree. -/
theorem parses_of_compile {ts : List Token} {program : Program}
    (h : Program.compile ts = .ok program) : ∃ tree, Parses Operand.Reads ts tree := by
  unfold Program.compile at h
  split at h
  · rename_i final hs
    have ha : Accepts {} ts := ⟨final, _, program, hs, h⟩
    obtain ⟨tree, rest, hd, hstops⟩ := (yields_expression ts).2 [] [] trivial ha
    obtain ⟨after, htaken, hs'⟩ := hd.steps [] [] _ trivial rfl
    have ha' := ha.congr hs'
    rcases ha'.next htaken.expectsOperand with rfl | ⟨t, op, us, rfl, hw⟩ | ⟨t, us, rfl, hc⟩
    · exact ⟨tree, hd⟩
    · exact absurd (hstops t op us rfl hw) (by cases op <;> decide)
    · obtain ⟨next, hn⟩ := ha'.step
      obtain ⟨output, waiting, rfl, hwait, -⟩ := htaken
      have hnone : Conversion.popToOpen? output (waiting ++ []) = none :=
        popToOpen?_waiting hwait output []
      simp only [Conversion.step, hc.1, hc.2, close, hnone, Bool.false_eq_true, if_false] at hn
      cases hn
  · cases h

/-- The conversion succeeds exactly on what the grammar derives, and writes the
post-order of the one parse tree. -/
theorem compile_iff_parses (tokens : List Token) :
    ((∃ program, Program.compile tokens = .ok program) ↔
      ∃ tree, Parses Operand.Reads tokens tree) ∧
    ∀ tree, Parses Operand.Reads tokens tree →
      Program.compile tokens = .ok (tree.postorder Operand.item) ∧
      ∀ other, Parses Operand.Reads tokens other → other = tree := by
  constructor
  · constructor
    · intro h
      obtain ⟨program, hprogram⟩ := h
      exact parses_of_compile hprogram
    · intro h
      obtain ⟨tree, htree⟩ := h
      exact ⟨_, htree.compile⟩
  · intro tree htree
    refine ⟨htree.compile, ?_⟩
    intro other hother
    exact hother.unique Operand.separates htree

end Tabular.Formula

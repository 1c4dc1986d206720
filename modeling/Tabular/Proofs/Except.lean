/-!
# Computations that may fail

What a mapped computation answers, and what a computation over the items of a list does.
-/
namespace Tabular

variable {ε ε' α β γ : Type}

theorem toOption_eq_some {x : Except ε α} {a : α} : x.toOption = some a ↔ x = .ok a := by
  cases x with
  | error e => exact ⟨fun h => (by cases h), fun h => (by cases h)⟩
  | ok b => exact ⟨fun h => congrArg _ (Option.some.inj h), fun h => (by cases h; rfl)⟩

theorem exists_eq_ok {x : Except ε α} (h : x.toOption.isSome) : ∃ a, x = .ok a := by
  obtain ⟨a, ha⟩ := Option.isSome_iff_exists.mp h
  exact ⟨a, toOption_eq_some.mp ha⟩

theorem throw_bind (e : ε) (f : α → Except ε β) : (throw e : Except ε α) >>= f = .error e :=
  rfl

theorem bind_eq_ok {x : Except ε α} {f : α → Except ε β} {b : β} :
    x >>= f = .ok b ↔ ∃ a, x = .ok a ∧ f a = .ok b := by
  cases x <;> simp [bind, Except.bind]

theorem map_eq_ok {x : Except ε α} {f : α → β} {b : β} :
    x.map f = .ok b ↔ ∃ a, x = .ok a ∧ f a = b := by
  cases x with
  | error e => simp [Except.map]
  | ok a => simp [Except.map]

theorem map_ne_ok {x : Except ε α} {f : α → β} (h : ∀ a, x ≠ .ok a) (b : β) : x.map f ≠ .ok b := by
  intro hb
  obtain ⟨a, ha, -⟩ := map_eq_ok.mp hb
  exact h a ha

theorem mapError_eq_ok {g : ε → ε'} {x : Except ε α} {a : α} :
    x.mapError g = .ok a ↔ x = .ok a := by
  cases x with
  | error e => exact ⟨fun h => (by cases h), fun h => (by cases h)⟩
  | ok b => exact ⟨fun h => (by cases h; rfl), fun h => (by cases h; rfl)⟩

/-- What a computation answers for the items of a list, it answers for one of them. -/
theorem exists_of_mem_mapM {f : α → Except ε β} {items : List α} {out : List β}
    (h : items.mapM f = .ok out) {b : β} (hb : b ∈ out) : ∃ a ∈ items, f a = .ok b := by
  induction items generalizing out with
  | nil =>
    cases h
    exact absurd hb List.not_mem_nil
  | cons a rest ih =>
    rw [List.mapM_cons] at h
    cases ha : f a with
    | error e =>
      rw [ha] at h
      cases h
    | ok first =>
      cases hrest : rest.mapM f with
      | error e =>
        rw [ha, hrest] at h
        cases h
      | ok others =>
        rw [ha, hrest] at h
        cases h
        rcases List.mem_cons.mp hb with rfl | hb
        · exact ⟨a, List.mem_cons_self, ha⟩
        · obtain ⟨item, hitem, heq⟩ := ih hrest hb
          exact ⟨item, List.mem_cons_of_mem _ hitem, heq⟩

/-- A computation that undoes a function undoes it on the items of a list. -/
theorem mapM_map_eq_ok {f : β → Except ε α} {g : α → β} {items : List α}
    (h : ∀ item ∈ items, f (g item) = .ok item) : (items.map g).mapM f = .ok items := by
  induction items with
  | nil => rfl
  | cons item rest ih =>
    obtain ⟨hitem, hrest⟩ := List.forall_mem_cons.mp h
    rw [List.map_cons, List.mapM_cons, hitem, ih hrest]
    rfl

theorem forall_mem_of_mapM {f : α → Except ε β} {P : β → Prop} (hf : ∀ a b, f a = .ok b → P b)
    {items : List α} {out : List β} (h : items.mapM f = .ok out) : ∀ b ∈ out, P b := by
  intro b hb
  obtain ⟨a, -, ha⟩ := exists_of_mem_mapM h hb
  exact hf a b ha

/-- There are answers for all items if there is one for each. -/
theorem exists_map_eq_ok {g : α → Except ε β} {items : List α} :
    (∃ values : List β, items.map g = values.map .ok) ↔ ∀ a ∈ items, ∃ b, g a = .ok b := by
  induction items with
  | nil => exact ⟨fun _ => List.forall_mem_nil _, fun _ => ⟨[], rfl⟩⟩
  | cons a rest ih =>
    rw [List.forall_mem_cons, ← ih]
    constructor
    · rintro ⟨values, h⟩
      cases values with
      | nil => cases h
      | cons b values =>
        obtain ⟨hb, hrest⟩ := List.cons.inj h
        exact ⟨⟨b, hb⟩, values, hrest⟩
    · rintro ⟨⟨b, hb⟩, values, hrest⟩
      exact ⟨b :: values, by rw [List.map_cons, List.map_cons, hb, hrest]⟩

/-- A computation that goes through another one answers for the items of a list what is made of
the items and of the other's answers, if there is one for each. -/
theorem mapM_eq_ok_zipWith {f : α → Except ε γ} {g : α → Except ε' β} {h : α → β → γ}
    (hf : ∀ a c, f a = .ok c ↔ ∃ b, g a = .ok b ∧ h a b = c) {items : List α} {out : List γ} :
    items.mapM f = .ok out ↔
      ∃ values : List β, items.map g = values.map .ok ∧ items.zipWith h values = out := by
  induction items generalizing out with
  | nil =>
    constructor
    · intro hout
      cases hout
      exact ⟨[], rfl, rfl⟩
    · rintro ⟨values, -, rfl⟩
      rfl
  | cons a rest ih =>
    rw [List.mapM_cons, bind_eq_ok]
    constructor
    · rintro ⟨c, hc, hrest⟩
      obtain ⟨others, hothers, hout⟩ := bind_eq_ok.mp hrest
      cases hout
      obtain ⟨b, hb, rfl⟩ := (hf a c).mp hc
      obtain ⟨values, hvalues, rfl⟩ := ih.mp hothers
      exact ⟨b :: values, by rw [List.map_cons, List.map_cons, hb, hvalues], rfl⟩
    · rintro ⟨values, hvalues, rfl⟩
      cases values with
      | nil => cases hvalues
      | cons b values =>
        obtain ⟨hb, hothers⟩ := List.cons.inj hvalues
        refine ⟨h a b, (hf a _).mpr ⟨b, hb, rfl⟩, bind_eq_ok.mpr ?_⟩
        exact ⟨_, ih.mpr ⟨values, hothers, rfl⟩, rfl⟩

end Tabular

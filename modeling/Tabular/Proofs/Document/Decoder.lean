import Tabular.Document.Decoder
import Tabular.Proofs.Document.Json
import Tabular.Proofs.Except

/-!
# The codec of the program

The codec that the program runs with is lawful (`Decoder.isLawful_codec`). Not every double is read
back by it: a significand is rounded before it is scaled.
-/
namespace Tabular

namespace Decoder

theorem settleItems_eq {items : List Document} (h : ∀ item ∈ items, settle item = .ok item) :
    settleItems items = .ok items := by
  induction items with
  | nil => rfl
  | cons item rest ih =>
    obtain ⟨hitem, hrest⟩ := List.forall_mem_cons.mp h
    rw [settleItems, hitem, ih hrest]
    rfl

theorem settleFields_eq {fields : List (String × Document)}
    (h : ∀ field ∈ fields, settle field.2 = .ok field.2) : settleFields fields = .ok fields := by
  induction fields with
  | nil => rfl
  | cons field rest ih =>
    obtain ⟨name, value⟩ := field
    obtain ⟨hfield, hrest⟩ := List.forall_mem_cons.mp h
    rw [settleFields, hfield, ih hrest]
    rfl

/-! ## Scalars -/

section
variable {d : Document} (hd : d.IsJson)
include hd

theorem isNothing_iff : isNothing d = true ↔ d = .null := by
  cases hd <;> simp [isNothing]

theorem null_eq_ok : null d = .ok () ↔ d = .null := by
  rw [null, ← isNothing_iff hd]
  split <;> simp_all

theorem bool_eq_ok {b : Bool} : bool d = .ok b ↔ d = .bool b := by
  cases hd <;> simp [bool]

theorem nat_eq_ok {n : Nat} : nat d = .ok n ↔ d = .int n := by
  cases hd with
  | @int i hlow hhigh =>
    simp only [nat, require, Document.int.injEq]
    by_cases hi : 0 ≤ i
    · rw [if_pos hi]
      simp only [Except.ok.injEq]
      omega
    · rw [if_neg hi]
      simp only [reduceCtorEq, false_iff]
      omega
  | _ => simp [nat]

theorem float_eq_ok {x : Float} :
    float d = .ok x ↔ d = .float x ∨ ∃ i, d = .int i ∧ Document.intToFloat i = x := by
  cases hd <;> simp [float]

theorem text_eq_ok {s : String} : text d = .ok s ↔ d = .text s := by
  cases hd <;> simp [text]

/-! ## Lists and readings that are tried in turn -/

section
variable {α : Type} {decode : Decoder α}

theorem option_of_ne (hnull : d ≠ .null) : option decode d = (decode d).map some := by
  rw [option, if_neg (mt (isNothing_iff hd).mp hnull)]

theorem list_eq_ok {values : List α} :
    list decode d = .ok values ↔ ∃ items, d = .list items ∧ items.mapM decode = .ok values := by
  cases hd <;> simp [list]

theorem entries_eq_ok {values : List (String × α)} :
    entries decode d = .ok values ↔ ∃ fields, d = .record fields ∧
      fields.mapM (fun field => (decode field.2).map fun value => (field.1, value)) =
        .ok values := by
  cases hd <;> simp [entries]

end

/-- There is no plain scalar to settle in a document that JSON may hold. -/
theorem settle_eq : settle d = .ok d := by
  induction hd with
  | list _ ih =>
    rw [settle, settleItems_eq ih]
    rfl
  | record _ ih =>
    rw [settle, settleFields_eq ih]
    rfl
  | _ => rfl

theorem firstOf_eq_ok {α : Type} {decoders : List (Decoder α)} {value : α} :
    firstOf decoders d = .ok value ↔ d.hasMalformed = false ∧
      decoders.findSome? (fun decode => (decode d).toOption) = some value := by
  rw [firstOf, settle_eq hd]
  cases d.hasMalformed with
  | true => simp [throw_bind]
  | false =>
    change require (decoders.findSome? fun decode => (decode d).toOption) = .ok value ↔ _
    cases decoders.findSome? fun decode => (decode d).toOption with
    | none => simp [require]
    | some found => simp [require]

end

/-! ## Records -/

variable {σ : Type}

section
variable {P : σ → Prop} {fields : List (Field σ)} (hkeep : ∀ f ∈ fields, f.Keeps P)
include hkeep

theorem readNamed_keeps {entries : List (String × Document)} {seen : List String} {x y : σ}
    (hentries : ∀ entry ∈ entries, entry.2.IsJson) (hx : P x)
    (h : readNamed fields entries seen x = .ok y) : P y := by
  induction entries generalizing seen x with
  | nil =>
    unfold readNamed at h
    split at h
    · cases h
      exact hx
    · cases h
  | cons entry rest ih =>
    obtain ⟨hentry, hrest⟩ := List.forall_mem_cons.mp hentries
    unfold readNamed at h
    split at h
    · split at h
      · cases h
      · exact ih hrest hx h
    · rename_i f hf
      split at h
      · cases h
      · split at h
        · rename_i value hput
          exact ih hrest (hkeep f (List.mem_of_find?_eq_some hf) _ _ _ hentry hx hput) h
        · cases h

theorem readInOrder_keeps {rest : List (Field σ)} (hsub : rest ⊆ fields) {items : List Document}
    {x y : σ} (hitems : ∀ item ∈ items, item.IsJson) (hx : P x)
    (h : readInOrder rest items x = .ok y) : P y := by
  induction rest generalizing items x with
  | nil =>
    cases items with
    | nil =>
      cases h
      exact hx
    | cons item items => cases h
  | cons f rest ih =>
    obtain ⟨hf, hrest⟩ := List.cons_subset.mp hsub
    cases items with
    | nil =>
      unfold readInOrder at h
      split at h
      · cases h
      · exact ih hrest hitems hx h
    | cons item items =>
      obtain ⟨hitem, hitems⟩ := List.forall_mem_cons.mp hitems
      unfold readInOrder at h
      split at h
      · rename_i value hput
        exact ih hrest hitems (hkeep f hf _ _ _ hitem hx hput) h
      · cases h

/-- A record has a property that its start has and that every field keeps. -/
theorem record_keeps {start : σ} (hstart : P start) {d : Document} {x : σ} (hd : d.IsJson)
    (h : record fields start d = .ok x) : P x := by
  cases hd with
  | record hfields => exact readNamed_keeps hkeep hfields hstart h
  | list hitems => exact readInOrder_keeps hkeep (List.Subset.refl _) hitems hstart h
  | _ => cases h

end

theorem name_mem_names {f : Field σ} (h : f.names ≠ []) : f.name ∈ f.names := by
  obtain ⟨name, others, hnames⟩ := List.exists_cons_of_ne_nil h
  simp [Field.name, hnames]

theorem Distinct.not_mem {done todo : List (Field σ)} {f g : Field σ}
    (h : Distinct (done ++ f :: todo)) (hg : g ∈ done) : f.name ∉ g.names := by
  intro hname
  have hnodup := h.nodup
  rw [List.flatMap_append, List.flatMap_cons] at hnodup
  refine List.disjoint_of_nodup_append hnodup (List.mem_flatMap.mpr ⟨g, hg, hname⟩) ?_
  exact List.mem_append_left _ (name_mem_names (h.named f (by simp)))

/-- A field is found by its own name. -/
theorem Distinct.find? {done todo : List (Field σ)} {f : Field σ}
    (h : Distinct (done ++ f :: todo)) :
    (done ++ f :: todo).find? (fun g => g.names.contains f.name) = some f := by
  have hown : f.names.contains f.name = true :=
    List.contains_iff_mem.mpr (name_mem_names (h.named f (by simp)))
  have hdone : done.find? (fun g => g.names.contains f.name) = none := by
    rw [List.find?_eq_none]
    intro g hg
    simpa using h.not_mem hg
  rw [List.find?_append, hdone, Option.none_or]
  exact List.find?_cons_of_pos hown

/-- The names are those of some fields, and no required one of these lacks its name. -/
structure NamesRead (done : List (Field σ)) (seen : List String) : Prop where
  names : ∀ name ∈ seen, ∃ f ∈ done, f.name = name
  required : ∀ f ∈ done, f.isRequired → f.name ∈ seen

theorem NamesRead.absent {done : List (Field σ)} {f : Field σ} {seen : List String}
    (h : NamesRead done seen) (hf : f.isRequired = false) : NamesRead (done ++ [f]) seen where
  names name hname := by
    obtain ⟨g, hg, rfl⟩ := h.names name hname
    exact ⟨g, List.mem_append_left _ hg, rfl⟩
  required g hg hrequired := by
    rcases List.mem_append.mp hg with hg | hg
    · exact h.required g hg hrequired
    · obtain rfl := List.mem_singleton.mp hg
      rw [hf] at hrequired
      cases hrequired

theorem NamesRead.present {done : List (Field σ)} {seen : List String}
    (h : NamesRead done seen) (f : Field σ) : NamesRead (done ++ [f]) (f.name :: seen) where
  names name hname := by
    rcases List.mem_cons.mp hname with rfl | hname
    · exact ⟨f, by simp, rfl⟩
    · obtain ⟨g, hg, rfl⟩ := h.names name hname
      exact ⟨g, List.mem_append_left _ hg, rfl⟩
  required g hg hrequired := by
    rcases List.mem_append.mp hg with hg | hg
    · exact List.mem_cons_of_mem _ (h.required g hg hrequired)
    · obtain rfl := List.mem_singleton.mp hg
      exact List.mem_cons_self

theorem NamesRead.not_mem {done todo : List (Field σ)} {f : Field σ} {seen : List String}
    (h : NamesRead done seen) (hnames : Distinct (done ++ f :: todo)) : f.name ∉ seen := by
  intro hmem
  obtain ⟨g, hg, hname⟩ := h.names _ hmem
  refine hnames.not_mem hg ?_
  rw [← hname]
  exact name_mem_names (hnames.named g (List.mem_append_left _ hg))

/-- Entries that fill fields are read, after others that filled the fields before them. -/
theorem Fills.readNamed {done todo : List (Field σ)} {entries : List (String × Document)}
    {x y : σ} (h : Fills todo entries x y) (hnames : Distinct (done ++ todo)) {seen : List String}
    (hseen : NamesRead done seen) : Decoder.readNamed (done ++ todo) entries seen x = .ok y := by
  induction h generalizing done seen with
  | done =>
    rw [Decoder.readNamed, if_pos]
    rw [List.append_nil, List.all_eq_true]
    intro f hf
    by_cases hrequired : f.isRequired = true
    · simpa [hrequired] using hseen.required f hf hrequired
    · simp [hrequired]
  | absent hoptional _ ih =>
    rw [List.append_cons] at hnames ⊢
    exact ih hnames (hseen.absent hoptional)
  | @present f fields entries d x y z _ hput _ ih =>
    have hnew : seen.contains f.name = false := by
      rw [Bool.eq_false_iff]
      exact fun hcontains => hseen.not_mem hnames (List.contains_iff_mem.mp hcontains)
    rw [Decoder.readNamed, hnames.find?]
    dsimp only
    rw [hnew, hput]
    simp only [Bool.false_eq_true, if_false]
    rw [List.append_cons] at hnames ⊢
    exact ih hnames (hseen.present f)

/-- The codec is lawful. -/
instance isLawful_codec : Codec.IsLawful where
  isJson_readJson := Json.isJson_read
  readJson_writeJson h _ hkept := Json.read_compact h hkept
  null_eq_ok hd := null_eq_ok hd
  bool_eq_ok hd := bool_eq_ok hd
  nat_eq_ok hd := nat_eq_ok hd
  float_eq_ok hd := float_eq_ok hd
  text_eq_ok hd := text_eq_ok hd
  option_null := rfl
  option_of_ne hd hnull := option_of_ne hd hnull
  list_eq_ok hd := list_eq_ok hd
  entries_eq_ok hd := entries_eq_ok hd
  word_text h := by
    rename_i ofWord? s value
    change require (ofWord? s) = .ok value
    rw [h]
    rfl
  firstOf_eq_ok hd := firstOf_eq_ok hd
  record_of_fills hnames h := @Fills.readNamed _ [] _ _ _ _ h hnames []
    ⟨List.forall_mem_nil _, List.forall_mem_nil _⟩
  record_keeps hkeep hstart hd h := record_keeps hkeep hstart hd h

/-- Such a codec need not read back every double that it writes. -/
example : ¬ Codec.KeepsDoubles (.float 0.9111111111111111) := by decide +kernel

end Decoder

end Tabular

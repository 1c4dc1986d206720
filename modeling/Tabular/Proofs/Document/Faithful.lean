import Tabular.Document.Format
import Tabular.Document.Settings
import Tabular.Proofs.Document.Codec
import Tabular.Proofs.Except

/-!
# Decoders faithful to their writers

A decoder is faithful to the writer of its type if what it reads of a JSON document has some
property, and what has that property is written as a document from which the decoder reads it
again. With a lawful codec decoders of scalars and lists are, and so is a decoder of records whose
fields are: the writer lists values for some of the fields in their order (`Fills`), and the others
are not missed. A faithful decoder undoes the writer on JSON texts as well
(`Faithful.roundTrips`).
-/
namespace Tabular

/-- A decoder reads values with a property, and reads those again from what is written for
them. -/
structure Faithful {α : Type} (decode : Decoder α) (write : α → Document) (P : α → Prop) :
    Prop where
  yields : ∀ {d v}, d.IsJson → decode d = .ok v → P v
  writable : ∀ {v}, P v → (write v).IsWritable
  reads : ∀ {v}, P v → decode (write v) = .ok v

/-- A value is read again from the JSON text that is written for it, and what is read has that
text written for it too. -/
def IsReadAgain [Codec] {α : Type} (decode : Decoder α) (write : α → Document) (x : α) : Prop :=
  ∃ again, Format.json.decode decode (Codec.writeJson (write x)) = .ok again ∧ again = x ∧
    Codec.writeJson (write again) = Codec.writeJson (write x)

/-- What is read of a JSON text is read again from the one that is written for it, if the doubles
in that one are read back, each by itself. -/
def RoundTrips [Codec] {α : Type} (decode : Decoder α) (write : α → Document) : Prop :=
  ∀ text x, Format.json.decode decode text = .ok x → Codec.KeepsDoubles (write x) →
    IsReadAgain decode write x

theorem RoundTrips.of_text [Codec] {α : Type} {decode : Decoder α} {write : α → Document}
    (h : RoundTrips decode write) {text : String} {x : α}
    (hread : Format.json.decode decode text = .ok x) (hkept : Codec.KeepsDoubles (write x)) :
    Format.json.decode decode text = .ok x ∧ IsReadAgain decode write x :=
  ⟨hread, h text x hread hkept⟩

theorem Format.decode_json_eq_ok [Codec] {α : Type} {decode : Decoder α} {text : String} {x : α} :
    Format.json.decode decode text = .ok x ↔ decode (Codec.readJson text) = .ok x := by
  unfold Format.decode Format.read
  cases decode (Codec.readJson text) with
  | error fault => simp
  | ok value => simp

namespace Faithful

variable [Codec] [Codec.IsLawful] {α : Type} {decode : Decoder α}
  {write : α → Document} {P : α → Prop}

theorem roundTrips (h : Faithful decode write P) (hlevels : ∀ v, (write v).Within Codec.levels) :
    RoundTrips decode write := by
  intro text x hread hdoubles
  have hx := h.yields (Codec.IsLawful.isJson_readJson text) (Format.decode_json_eq_ok.mp hread)
  refine ⟨x, Format.decode_json_eq_ok.mpr ?_, rfl, rfl⟩
  rw [Codec.IsLawful.readJson_writeJson (h.writable hx) (hlevels x) hdoubles, h.reads hx]

/-! ## Readings that are tried in turn -/

theorem firstOf_head {decoders : List (Decoder α)} {d : Document} {v : α} (hd : d.IsWritable)
    (h : decode d = .ok v) : Codec.firstOf (decode :: decoders) d = .ok v := by
  refine (Codec.IsLawful.firstOf_eq_ok hd.isJson).mpr ⟨hd.whole, ?_⟩
  rw [List.findSome?_cons, h]
  rfl

theorem firstOf_tail {decoders : List (Decoder α)} {d : Document} {v : α} (hd : d.IsJson)
    (h : ∀ w, decode d ≠ .ok w) (hrest : Codec.firstOf decoders d = .ok v) :
    Codec.firstOf (decode :: decoders) d = .ok v := by
  obtain ⟨hwhole, hfound⟩ := (Codec.IsLawful.firstOf_eq_ok hd).mp hrest
  refine (Codec.IsLawful.firstOf_eq_ok hd).mpr ⟨hwhole, ?_⟩
  have hnone : (decode d).toOption = none := by
    cases hdecode : decode d with
    | error fault => rfl
    | ok w => exact absurd hdecode (h w)
  rw [List.findSome?_cons, hnone, hfound]

/-! ## Scalars and lists -/

theorem text : Faithful Codec.text .text fun _ => True where
  yields _ _ := trivial
  writable {s} _ := .text s
  reads {s} _ := (Codec.IsLawful.text_eq_ok (.text s)).mpr rfl

theorem bool : Faithful Codec.bool .bool fun _ => True where
  yields _ _ := trivial
  writable {b} _ := .bool b
  reads {b} _ := (Codec.IsLawful.bool_eq_ok (.bool b)).mpr rfl

theorem nat : Faithful Codec.nat (fun k => .int k) (· < 2 ^ 64) where
  yields {d k} hd h := by
    obtain rfl := (Codec.IsLawful.nat_eq_ok hd).mp h
    cases hd with
    | int _ hhigh => exact_mod_cast hhigh
  writable {k} hk := .int (by omega) (by exact_mod_cast hk)
  reads {k} hk := (Codec.IsLawful.nat_eq_ok (.int (by omega) (by exact_mod_cast hk))).mpr rfl

/-- A double that is read of a JSON document is finite. -/
theorem isFinite_of_float {d : Document} {x : Float} (hd : d.IsJson)
    (h : Codec.float d = .ok x) : x.isFinite := by
  rcases (Codec.IsLawful.float_eq_ok hd).mp h with rfl | ⟨i, rfl, rfl⟩
  · cases hd with
    | float hx => exact hx
  · cases hd with
    | int hlow hhigh => exact Document.isFinite_intToFloat hlow hhigh

theorem float : Faithful Codec.float .float (·.isFinite) where
  yields hd h := isFinite_of_float hd h
  writable hx := .float hx
  reads hx := (Codec.IsLawful.float_eq_ok (.float hx)).mpr (.inl rfl)

/-- A kind is read again from its name. -/
theorem named {ofName? : String → Option α} {name : α → String}
    (h : ∀ kind, ofName? (name kind) = some kind) :
    Faithful (Codec.named ofName?) (fun kind => .text (name kind)) fun _ => True where
  yields _ _ := trivial
  writable _ := .text _
  reads {kind} _ := by
    refine bind_eq_ok.mpr ⟨name kind, (Codec.IsLawful.text_eq_ok (.text _)).mpr rfl, ?_⟩
    rw [h]
    rfl

theorem word {ofWord? : String → Option α} {name : α → String}
    (h : ∀ kind, ofWord? (name kind) = some kind) :
    Faithful (Codec.word ofWord?) (fun kind => .text (name kind)) fun _ => True where
  yields _ _ := trivial
  writable _ := .text _
  reads {kind} _ := Codec.IsLawful.word_text (h kind)

theorem list (h : Faithful decode write P) :
    Faithful (Codec.list decode) (fun xs => .list (xs.map write))
      fun xs => ∀ x ∈ xs, P x where
  yields {d xs} hd hread := by
    obtain ⟨items, rfl, hitems⟩ := (Codec.IsLawful.list_eq_ok hd).mp hread
    cases hd with
    | list hjson =>
      intro x hx
      obtain ⟨item, hitem, hdecode⟩ := exists_of_mem_mapM hitems hx
      exact h.yields (hjson item hitem) hdecode
  writable {xs} hxs := by
    refine .list fun item hitem => ?_
    obtain ⟨x, hx, rfl⟩ := List.mem_map.mp hitem
    exact h.writable (hxs x hx)
  reads {xs} hxs := by
    refine (Codec.IsLawful.list_eq_ok (.list fun item hitem => ?_)).mpr
      ⟨_, rfl, mapM_map_eq_ok fun x hx => h.reads (hxs x hx)⟩
    obtain ⟨x, hx, rfl⟩ := List.mem_map.mp hitem
    exact (h.writable (hxs x hx)).isJson

end Faithful

/-! ## Records -/

namespace Decoder

variable {σ : Type}

theorem Fills.isWritable {fields : List (Field σ)} {entries : List (String × Document)}
    {x y : σ} (h : Fills fields entries x y) : ∀ entry ∈ entries, entry.2.IsWritable := by
  induction h with
  | done => simp
  | absent _ _ ih => exact ih
  | present hd _ _ ih => exact List.forall_mem_cons.mpr ⟨hd, ih⟩

/-! ### Fields with faithful decoders -/

section
variable {α : Type} {decode : Decoder α} {write : α → Document} {Q : α → Prop}

theorem Field.keeps {P : σ → Prop} {put : σ → α → σ}
    (hread : ∀ {d v}, d.IsJson → decode d = .ok v → Q v)
    (hput : ∀ {x v}, P x → Q v → P (put x v)) {f : Field σ}
    (hf : f.put = fun d x => (decode d).map (put x)) : f.Keeps P := by
  intro d x y hd hx hy
  rw [hf] at hy
  obtain ⟨v, hv, rfl⟩ := map_eq_ok.mp hy
  exact hput hx (hread hd hv)

variable (h : Faithful decode write Q)
include h

theorem Field.keeps_required {P : σ → Prop} {put : σ → α → σ}
    (hput : ∀ {x v}, P x → Q v → P (put x v)) {names : List String} :
    (Field.required names decode put).Keeps P :=
  Field.keeps h.yields hput rfl

theorem Field.keeps_optional {P : σ → Prop} {put : σ → α → σ}
    (hput : ∀ {x v}, P x → Q v → P (put x v)) {names : List String} :
    (Field.optional names decode put).Keeps P :=
  Field.keeps h.yields hput rfl

variable {name : String} {more : List String} {fields : List (Field σ)}
  {entries : List (String × Document)} {x y : σ}

theorem Fills.required {put : σ → α → σ} {v : α} (hv : Q v)
    (hrest : Fills fields entries (put x v) y) :
    Fills (.required (name :: more) decode put :: fields) ((name, write v) :: entries) x y := by
  refine @Fills.present σ (.required (name :: more) decode put) _ _ _ _ _ _ (h.writable hv) ?_
    hrest
  exact map_eq_ok.mpr ⟨v, h.reads hv, rfl⟩

theorem Fills.optional {put : σ → α → σ} {v : α} (hv : Q v)
    (hrest : Fills fields entries (put x v) y) :
    Fills (.optional (name :: more) decode put :: fields) ((name, write v) :: entries) x y := by
  refine @Fills.present σ (.optional (name :: more) decode put) _ _ _ _ _ _ (h.writable hv) ?_
    hrest
  exact map_eq_ok.mpr ⟨v, h.reads hv, rfl⟩

variable [Codec] [Codec.IsLawful]

theorem option_yields {d : Document} {o : Option α} (hd : d.IsJson)
    (ho : Codec.option decode d = .ok o) : ∀ v ∈ o, Q v := by
  by_cases hnull : d = .null
  · subst hnull
    rw [Codec.IsLawful.option_null] at ho
    cases ho
    exact fun v hv => by cases hv
  · rw [Codec.IsLawful.option_of_ne hd hnull] at ho
    obtain ⟨v, hv, rfl⟩ := map_eq_ok.mp ho
    intro w hw
    obtain rfl := Option.some.inj hw
    exact h.yields hd hv

theorem Field.keeps_option {P : σ → Prop} {put : σ → Option α → σ}
    (hput : ∀ {x o}, P x → (∀ v ∈ o, Q v) → P (put x o)) {names : List String} :
    (Field.optional names (Codec.option decode) put).Keeps P :=
  Field.keeps (option_yields h) hput rfl

/-- A value that is nothing has no entry, and the record is as if it had none. -/
theorem Fills.option {put : σ → Option α → σ} {o : Option α}
    (hnull : ∀ v, write v ≠ .null) (hv : ∀ v ∈ o, Q v) (hnone : put x none = x)
    (hrest : Fills fields entries (put x o) y) :
    Fills (.optional (name :: more) (Codec.option decode) put :: fields)
      (Document.optional name (o.map write) ++ entries) x y := by
  cases o with
  | none =>
    rw [hnone] at hrest
    exact .absent rfl hrest
  | some v =>
    have hq := hv v rfl
    refine @Fills.present σ (.optional (name :: more) (Codec.option decode) put) _ _ _ _ _ _
      (h.writable hq) ?_ hrest
    refine map_eq_ok.mpr ⟨some v, ?_, rfl⟩
    rw [Codec.IsLawful.option_of_ne (h.writable hq).isJson (hnull v), h.reads hq]
    rfl

end

/-- An empty list has no entry. -/
theorem Fills.list {α : Type} {decode : Decoder (List α)} {write : α → Document}
    {Q : List α → Prop} (h : Faithful decode (fun vs => .list (vs.map write)) Q) {name : String}
    {more : List String} {fields : List (Field σ)} {entries : List (String × Document)} {x y : σ}
    {put : σ → List α → σ} {vs : List α} (hvs : Q vs) (hnil : put x [] = x)
    (hrest : Fills fields entries (put x vs) y) :
    Fills (.optional (name :: more) decode put :: fields)
      (Document.optionalList name (vs.map write) ++ entries) x y := by
  cases vs with
  | nil =>
    rw [hnil] at hrest
    exact .absent rfl hrest
  | cons v vs => exact .optional h hvs hrest

end Decoder

/-- A decoder of records is faithful to a writer whose entries fill the fields. -/
theorem Faithful.record [Codec] [Codec.IsLawful] {σ : Type} {fields : List (Decoder.Field σ)}
    {start : σ} {write : σ → Document} {P : σ → Prop} (hnames : Decoder.Distinct fields)
    (hstart : P start) (hkeep : ∀ f ∈ fields, f.Keeps P)
    (hfills : ∀ {x}, P x → ∃ entries, write x = .record entries ∧
      Decoder.Fills fields entries start x) :
    Faithful (Codec.record fields start) write P where
  yields hd h := Codec.IsLawful.record_keeps hkeep hstart hd h
  writable {x} hx := by
    obtain ⟨entries, hwrite, hfilled⟩ := hfills hx
    rw [hwrite]
    exact .record hfilled.isWritable
  reads {x} hx := by
    obtain ⟨entries, hwrite, hfilled⟩ := hfills hx
    rw [hwrite]
    exact Codec.IsLawful.record_of_fills hnames hfilled

end Tabular

import Mathlib.Data.List.Nodup
import Tabular.Document.Codec
import Tabular.Proofs.Number.Nearest
import Tabular.Proofs.Number.ReadBack

/-!
# What is assumed of a codec

A codec is lawful if it reads the documents that JSON texts hold as it should
(`Codec.IsLawful`): scalars of the type that is asked for, lists item by item, records by the
names of their fields. What it writes it reads back, apart from the doubles, of which a law says
nothing: that they are read back is a condition on the document that is written
(`Codec.KeepsDoubles`).
-/
namespace Tabular

namespace Document

/-- A document that JSON may hold: its scalars are not plain, its doubles are finite, and its
whole numbers have 64 bits. It may be malformed. -/
inductive IsJson : Document → Prop
  | null : IsJson .null
  | bool (b : Bool) : IsJson (.bool b)
  | int {i : Int} : -2 ^ 63 ≤ i → i < 2 ^ 64 → IsJson (.int i)
  | float {x : Float} : x.isFinite → IsJson (.float x)
  | text (s : String) : IsJson (.text s)
  | list {items : List Document} : (∀ item ∈ items, IsJson item) → IsJson (.list items)
  | record {fields : List (String × Document)} :
      (∀ field ∈ fields, IsJson field.2) → IsJson (.record fields)
  | invalid : IsJson .invalid
  | cut : IsJson .cut

/-- A document that JSON may hold, without malformed parts. -/
inductive IsWritable : Document → Prop
  | null : IsWritable .null
  | bool (b : Bool) : IsWritable (.bool b)
  | int {i : Int} : -2 ^ 63 ≤ i → i < 2 ^ 64 → IsWritable (.int i)
  | float {x : Float} : x.isFinite → IsWritable (.float x)
  | text (s : String) : IsWritable (.text s)
  | list {items : List Document} : (∀ item ∈ items, IsWritable item) → IsWritable (.list items)
  | record {fields : List (String × Document)} :
      (∀ field ∈ fields, IsWritable field.2) → IsWritable (.record fields)

theorem IsWritable.isJson {d : Document} (h : d.IsWritable) : d.IsJson := by
  induction h with
  | null => exact .null
  | bool b => exact .bool b
  | int hlow hhigh => exact .int hlow hhigh
  | float hx => exact .float hx
  | text s => exact .text s
  | list _ ih => exact .list ih
  | record _ ih => exact .record ih

theorem hasMalformed_list {items : List Document} :
    (list items).hasMalformed = false ↔ ∀ item ∈ items, item.hasMalformed = false := by
  have hany : ∀ items, anyLeafOfItems isMalformed items = items.any hasMalformed := by
    intro items
    induction items with
    | nil => rfl
    | cons item rest ih => rw [anyLeafOfItems, ih, List.any_cons, hasMalformed]
  rw [hasMalformed, anyLeaf, hany, List.any_eq_false]
  simp

theorem hasMalformed_record {fields : List (String × Document)} :
    (record fields).hasMalformed = false ↔ ∀ field ∈ fields, field.2.hasMalformed = false := by
  have hany : ∀ fields, anyLeafOfFields isMalformed fields = fields.any (·.2.hasMalformed) := by
    intro fields
    induction fields with
    | nil => rfl
    | cons field rest ih => rw [anyLeafOfFields, ih, List.any_cons, hasMalformed]
  rw [hasMalformed, anyLeaf, hany, List.any_eq_false]
  simp

theorem IsWritable.whole {d : Document} (h : d.IsWritable) : d.hasMalformed = false := by
  induction h with
  | null | bool | int | float | text => rfl
  | list _ ih => exact hasMalformed_list.mpr ih
  | record _ ih => exact hasMalformed_record.mpr ih

/-- At most so many lists and records stand inside each other. -/
def Within (n : Nat) : Document → Prop
  | list items =>
    match n with
    | 0 => False
    | m + 1 => ∀ item ∈ items, item.Within m
  | record fields =>
    match n with
    | 0 => False
    | m + 1 => ∀ field ∈ fields, field.2.Within m
  | _ => True

section
variable {n : Nat}

@[simp]
theorem within_null : null.Within n := by cases n <;> trivial

@[simp]
theorem within_bool (b : Bool) : (bool b).Within n := by cases n <;> trivial

@[simp]
theorem within_int (i : Int) : (int i).Within n := by cases n <;> trivial

@[simp]
theorem within_float (x : Float) : (float x).Within n := by cases n <;> trivial

@[simp]
theorem within_text (s : String) : (text s).Within n := by cases n <;> trivial

@[simp]
theorem within_list {items : List Document} :
    (list items).Within (n + 1) ↔ ∀ item ∈ items, item.Within n :=
  Iff.rfl

@[simp]
theorem within_record {fields : List (String × Document)} :
    (record fields).Within (n + 1) ↔ ∀ field ∈ fields, field.2.Within n :=
  Iff.rfl

end

mutual

/-- The doubles of a document. -/
def doubles : Document → List Float
  | float x => [x]
  | list items => doublesOfItems items
  | record fields => doublesOfFields fields
  | _ => []

def doublesOfItems : List Document → List Float
  | [] => []
  | item :: rest => doubles item ++ doublesOfItems rest

def doublesOfFields : List (String × Document) → List Float
  | [] => []
  | (_, value) :: rest => doubles value ++ doublesOfFields rest

end

theorem mem_doublesOfItems {x : Float} {items : List Document} :
    x ∈ doublesOfItems items ↔ ∃ item ∈ items, x ∈ item.doubles := by
  induction items with
  | nil => simp [doublesOfItems]
  | cons item rest ih => simp [doublesOfItems, ih]

theorem mem_doublesOfFields {x : Float} {fields : List (String × Document)} :
    x ∈ doublesOfFields fields ↔ ∃ field ∈ fields, x ∈ field.2.doubles := by
  induction fields with
  | nil => simp [doublesOfFields]
  | cons field rest ih => simp [doublesOfFields, ih]

instance (x : Float) : (d : Document) → Decidable (d = float x)
  | float y => decidable_of_iff (y = x) (by rw [float.injEq])
  | null | bool _ | int _ | text _ | plain _ | list _ | record _ | invalid | cut => isFalse nofun

end Document

/-! ## Whole numbers as doubles -/

namespace Number

theorem roundEven_le (num den : Nat) : roundEven num den ≤ num / den + 1 := by
  simp only [roundEven]
  split <;> omega

/-- A whole number of some 64 bits is far below the largest double. -/
theorem nearestBits_lt {n : Nat} (h : n < 2 ^ 65) : nearestBits n 1 < infinityBits := by
  have hinfinity : infinityBits = 2047 * 2 ^ 52 := rfl
  have htwo : ∀ k, twoTo k = 2 ^ k := fun _ => rfl
  by_cases hn : n = 0
  · simp [nearestBits, hn, hinfinity]
  have hlog : n.log2 < 65 := (Nat.log2_lt hn).mpr h
  have hself : n < 2 ^ (n.log2 + 1) := Nat.lt_log2_self
  have hone : Nat.log2 1 = 0 := by decide
  have hbounds : (n.log2 : Int) - 53 ≤ unitExponent n 1 ∧ unitExponent n 1 ≤ n.log2 - 52 := by
    simp only [unitExponent, hone]
    split <;> omega
  simp only [nearestBits, hn, if_false, htwo, Nat.one_mul]
  generalize unitExponent n 1 = unit at hbounds
  -- The unit is counted so that the quotient has at most 54 bits.
  have hscaled : n * 2 ^ (-unit).toNat / 2 ^ unit.toNat < 2 ^ 54 := by
    rw [Nat.div_lt_iff_lt_mul (Nat.two_pow_pos _), ← Nat.pow_add]
    calc n * 2 ^ (-unit).toNat < 2 ^ (n.log2 + 1) * 2 ^ (-unit).toNat :=
          Nat.mul_lt_mul_of_pos_right hself (Nat.two_pow_pos _)
      _ = 2 ^ (n.log2 + 1 + (-unit).toNat) := (Nat.pow_add ..).symm
      _ ≤ 2 ^ (54 + unit.toNat) := Nat.pow_le_pow_right (by decide) (by omega)
  have hround := roundEven_le (n * 2 ^ (-unit).toNat) (2 ^ unit.toNat)
  have hplace : (unit + 1074).toNat ≤ 1086 := by omega
  rw [hinfinity]
  omega

end Number

/-- A whole number that a document holds is finite as a double. -/
theorem Document.isFinite_intToFloat {i : Int} (hlow : -2 ^ 63 ≤ i) (hhigh : i < 2 ^ 64) :
    (intToFloat i).isFinite := by
  refine Number.isFinite_ofMagnitude ?_ _
  simp only [Number.Decimal.magnitudeBits]
  split
  · decide
  · have hn : i.natAbs < 2 ^ 65 := by omega
    have hcount : Number.digitCount i.natAbs ≤ 310 := by
      rw [Number.digitCount_le_iff (by decide)]
      exact Nat.lt_of_lt_of_le hn (by decide +kernel)
    rw [if_neg (by omega)]
    exact Number.nearestBits_lt (by simpa [Number.tenTo] using hn)

/-! ## Fields of records -/

namespace Decoder

variable {σ : Type}

/-- What a field puts into a record with a property leaves it with the property. -/
def Field.Keeps (P : σ → Prop) (f : Field σ) : Prop :=
  ∀ d x y, d.IsJson → P x → f.put d x = .ok y → P y

/-- Every field has a name, and no name is that of two fields. -/
structure Distinct (fields : List (Field σ)) : Prop where
  named : ∀ f ∈ fields, f.names ≠ []
  nodup : (fields.flatMap Field.names).Nodup

/-- Fields take the values of a record's entries in turn, where those without an entry are
optional. -/
inductive Fills : List (Field σ) → List (String × Document) → σ → σ → Prop
  | done {x : σ} : Fills [] [] x x
  | absent {f : Field σ} {fields entries x y} : f.isRequired = false →
      Fills fields entries x y → Fills (f :: fields) entries x y
  | present {f : Field σ} {fields entries d x y z} : d.IsWritable → f.put d x = .ok y →
      Fills fields entries y z → Fills (f :: fields) ((f.name, d) :: entries) x z

end Decoder

/-! ## Laws -/

namespace Codec

variable [Codec]

/-- Each double of a document is read back, as itself, from the text that is written for it
alone. -/
def KeepsDoubles (d : Document) : Prop :=
  ∀ x ∈ d.doubles, readJson (writeJson (.float x)) = .float x

instance (d : Document) : Decidable (KeepsDoubles d) :=
  inferInstanceAs (Decidable (∀ x ∈ d.doubles, _))

/-- The levels of lists and records up to which a text is read. -/
def levels : Nat := 127

/-- What is known of a codec, about documents that JSON texts hold. -/
class IsLawful : Prop where
  isJson_readJson (text : String) : (readJson text).IsJson
  /-- A document is read back from its text, if its doubles are. -/
  readJson_writeJson {d : Document} : d.IsWritable → d.Within levels → KeepsDoubles d →
    readJson (writeJson d) = d
  null_eq_ok {d : Document} : d.IsJson → (null d = .ok () ↔ d = .null)
  bool_eq_ok {d : Document} {b : Bool} : d.IsJson → (bool d = .ok b ↔ d = .bool b)
  nat_eq_ok {d : Document} {n : Nat} : d.IsJson → (nat d = .ok n ↔ d = .int n)
  /-- A whole number counts as the double that is nearest to it. -/
  float_eq_ok {d : Document} {x : Float} : d.IsJson →
    (float d = .ok x ↔ d = .float x ∨ ∃ i, d = .int i ∧ Document.intToFloat i = x)
  text_eq_ok {d : Document} {s : String} : d.IsJson → (text d = .ok s ↔ d = .text s)
  option_null {α : Type} {decode : Decoder α} : option decode .null = .ok none
  option_of_ne {α : Type} {decode : Decoder α} {d : Document} : d.IsJson → d ≠ .null →
    option decode d = (decode d).map some
  list_eq_ok {α : Type} {decode : Decoder α} {d : Document} {values : List α} : d.IsJson →
    (list decode d = .ok values ↔ ∃ items, d = .list items ∧ items.mapM decode = .ok values)
  entries_eq_ok {α : Type} {decode : Decoder α} {d : Document} {values : List (String × α)} :
    d.IsJson → (entries decode d = .ok values ↔ ∃ fields, d = .record fields ∧
      fields.mapM (fun field => (decode field.2).map fun value => (field.1, value)) = .ok values)
  word_text {α : Type} {ofWord? : String → Option α} {s : String} {value : α} :
    ofWord? s = some value → word ofWord? (.text s) = .ok value
  /-- Readings are tried on a document that has no malformed part, and the first one that reads
  it counts. -/
  firstOf_eq_ok {α : Type} {decoders : List (Decoder α)} {d : Document} {value : α} : d.IsJson →
    (firstOf decoders d = .ok value ↔ d.hasMalformed = false ∧
      decoders.findSome? (fun decode => (decode d).toOption) = some value)
  /-- A record is read from entries under the own names of its fields, in their order, that
  leave out none that is required. -/
  record_of_fills {σ : Type} {fields : List (Decoder.Field σ)} {start value : σ}
    {given : List (String × Document)} : Decoder.Distinct fields →
    Decoder.Fills fields given start value → record fields start (.record given) = .ok value
  /-- However a record is given, it comes from its start by what its fields put into it. -/
  record_keeps {σ : Type} {fields : List (Decoder.Field σ)} {start value : σ} {d : Document}
    {P : σ → Prop} : (∀ f ∈ fields, f.Keeps P) → P start → d.IsJson →
    record fields start d = .ok value → P value

end Codec
end Tabular

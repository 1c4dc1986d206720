import Tabular.Document

/-!
# Codecs

The operations that documents are written and read with. A decoder reads a value of one
type out of a document. A codec has decoders of scalars, and puts decoders together to
ones of lists and records; what a record is called and has for fields, and how a value is
written as a document, is up to its type.
-/
namespace Tabular

/-- Why a document is not a value of a type. -/
inductive Fault
  | malformed
  | misshapen
  deriving DecidableEq

/-- A reader of values of one type. -/
abbrev Decoder (α : Type) := Document → Except Fault α

namespace Decoder

/-- A value that may be missing, or the fault of a wrong one. -/
def require {α : Type} (value? : Option α) : Except Fault α :=
  match value? with
  | some value => .ok value
  | none => .error .misshapen

/-- A field of a record: the names it is read under, its own first, and how a record with
it differs from one without. -/
structure Field (σ : Type) where
  names : List String
  isRequired : Bool
  put : Document → σ → Except Fault σ

namespace Field

def required {σ α : Type} (names : List String) (decode : Decoder α) (put : σ → α → σ) :
    Field σ :=
  ⟨names, true, fun document value => (decode document).map (put value)⟩

def optional {σ α : Type} (names : List String) (decode : Decoder α) (put : σ → α → σ) :
    Field σ :=
  ⟨names, false, fun document value => (decode document).map (put value)⟩

def name {σ : Type} (field : Field σ) : String := field.names.headD ""

@[simp]
theorem names_required {σ α : Type} (names : List String) (decode : Decoder α)
    (put : σ → α → σ) : (required names decode put).names = names :=
  rfl

@[simp]
theorem names_optional {σ α : Type} (names : List String) (decode : Decoder α)
    (put : σ → α → σ) : (optional names decode put).names = names :=
  rfl

end Field
end Decoder

/-- The operations that documents are written and read with. -/
class Codec where
  /-- The document that a JSON text holds. -/
  readJson (text : String) : Document
  writeJson (document : Document) : String
  /-- The document that a YAML text holds. -/
  readYaml (text : String) : Document
  null : Decoder Unit
  bool : Decoder Bool
  /-- A whole number that is not negative and has 64 bits. -/
  nat : Decoder Nat
  float : Decoder Float
  text : Decoder String
  /-- A value or a null. -/
  option {α : Type} (decode : Decoder α) : Decoder (Option α)
  list {α : Type} (decode : Decoder α) : Decoder (List α)
  /-- The fields of a record with their names, whatever these are. -/
  entries {α : Type} (decode : Decoder α) : Decoder (List (String × α))
  /-- One of a few words. -/
  word {α : Type} (ofWord? : String → Option α) : Decoder α
  /-- The first of several readings that fits. -/
  firstOf {α : Type} (decoders : List (Decoder α)) : Decoder α
  /-- A record, by the names of its fields or in their order. It is read onto a start,
  which is what fields are when they are not given; required ones have to be. -/
  record {σ : Type} (fields : List (Decoder.Field σ)) (start : σ) : Decoder σ

namespace Codec

/-- A value that is written as a text. -/
def named [Codec] {α : Type} (ofName? : String → Option α) : Decoder α := fun document => do
  let name ← text document
  Decoder.require (ofName? name)

end Codec
end Tabular

import Tabular.Number.Layout

/-!
# Documents

The tree that a JSON or YAML text holds. A record keeps its fields as written,
repeated ones included. A plain YAML scalar stays unread until something asks for a
type: the same `5` is a text where a name is wanted. Where a text breaks off or is
malformed the tree ends in `cut`, so that a reader meets faults in the order in
which they stand in the text. A scalar that is written well but has no value, such as
a number past the largest double, is `invalid`: it does harm only where it is read.
-/
namespace Tabular

/-- The tree of a JSON or YAML text. -/
inductive Document
  | null
  | bool (value : Bool)
  | int (value : Int)
  | float (value : Float)
  | text (value : String)
  | plain (value : String)
  | list (items : List Document)
  | record (fields : List (String × Document))
  | invalid
  | cut
  deriving Inhabited

namespace Document

def isCut : Document → Bool
  | cut => true
  | _ => false

def isMalformed : Document → Bool
  | invalid => true
  | cut => true
  | _ => false

mutual

def anyLeaf (p : Document → Bool) : Document → Bool
  | list items => anyLeafOfItems p items
  | record fields => anyLeafOfFields p fields
  | leaf => p leaf

def anyLeafOfItems (p : Document → Bool) : List Document → Bool
  | [] => false
  | item :: rest => anyLeaf p item || anyLeafOfItems p rest

def anyLeafOfFields (p : Document → Bool) : List (String × Document) → Bool
  | [] => false
  | (_, value) :: rest => anyLeaf p value || anyLeafOfFields p rest

end

def hasCut (document : Document) : Bool := document.anyLeaf isCut

def hasMalformed (document : Document) : Bool := document.anyLeaf isMalformed

def intToFloat (i : Int) : Float := (Number.Decimal.mk (i < 0) i.natAbs 0).toFloat

/-- A field of a record, or nothing where there is no value. -/
def optional (name : String) : Option Document → List (String × Document)
  | some value => [(name, value)]
  | none => []

theorem forall_mem_optional_map {α : Type} {name : String} {write : α → Document}
    {value? : Option α} {p : String × Document → Prop} :
    (∀ field ∈ optional name (value?.map write), p field) ↔
      ∀ value ∈ value?, p (name, write value) := by
  cases value? <;> simp [optional]

/-- A list field, or nothing where the list is empty. -/
def optionalList (name : String) (items : List Document) : List (String × Document) :=
  if items.isEmpty then [] else [(name, list items)]

theorem forall_mem_optionalList {name : String} {items : List Document}
    {p : String × Document → Prop} :
    (∀ field ∈ optionalList name items, p field) ↔ (items ≠ [] → p (name, list items)) := by
  cases items <;> simp [optionalList]

def texts (items : List String) : Document := list (items.map text)

def ofValue : Option Float → Document
  | some x => float x
  | none => null

end Document
end Tabular

import Tabular.Document.Codec
import Tabular.Document.Plain
import Tabular.Document.Yaml

/-!
# Decoders

The codec that the program runs with. A decoder meets the parts of a document in the
order in which they stand in the text and answers with the first fault: the text is
malformed there, or what stands there has the wrong shape.
-/
namespace Tabular

namespace Decoder

/-- The fault of a document where something else is wanted. -/
def mismatch (document : Document) : Fault :=
  if document.isMalformed then .malformed else .misshapen

/-- A text; a plain scalar counts as written. -/
def text : Decoder String
  | .text s => .ok s
  | .plain s => .ok s
  | document => .error (mismatch document)

def bool : Decoder Bool
  | .bool b => .ok b
  | .plain s => require (Plain.bool? s)
  | document => .error (mismatch document)

/-- A whole number that is not negative and not written as a double. -/
def nat : Decoder Nat
  | .int i => require (if 0 ≤ i then some i.toNat else none)
  | .plain s => require (Plain.nat? s)
  | document => .error (mismatch document)

/-- A double; whole numbers count. -/
def float : Decoder Float
  | .int i => .ok (Document.intToFloat i)
  | .float x => .ok x
  | .plain s => require (Plain.float? s)
  | document => .error (mismatch document)

def isNothing : Document → Bool
  | .null => true
  | .plain s => Plain.isNothing s
  | _ => false

def null : Decoder Unit := fun document =>
  if isNothing document then .ok () else .error (mismatch document)

def option {α : Type} (decode : Decoder α) : Decoder (Option α) := fun document =>
  if isNothing document then .ok none else (decode document).map some

/-- A list; an empty plain scalar is an empty one. -/
def list {α : Type} (decode : Decoder α) : Decoder (List α)
  | .list items => items.mapM decode
  | .plain s => if s.isEmpty then .ok [] else .error .misshapen
  | document => .error (mismatch document)

/-- The values of a record with their names; an empty plain scalar is a record of none. -/
def entries {α : Type} (decode : Decoder α) : Decoder (List (String × α))
  | .record fields =>
    fields.mapM fun (name, document) => (decode document).map fun value => (name, value)
  | .plain s => if s.isEmpty then .ok [] else .error .misshapen
  | document => .error (mismatch document)

/-- One of a few words. A word may also be the only field of a record, over null;
what is neither a text nor a record does not count as well formed. -/
def word {α : Type} (ofWord? : String → Option α) : Decoder α
  | .text s => require (ofWord? s)
  | .plain s => require (ofWord? s)
  | .record ((name, value) :: others) =>
    match ofWord? name, value with
    | some found, .null => if others.isEmpty then .ok found else .error .malformed
    | some _, document => .error (mismatch document)
    | none, _ => .error (if name.isEmpty then .malformed else .misshapen)
  | _ => .error .malformed

mutual

/-- A document in which every plain scalar is what it stands for where no type is asked
for. -/
def settle : Document → Except Fault Document
  | .plain s => require (Plain.settle? s)
  | .list items => (settleItems items).map .list
  | .record fields => (settleFields fields).map .record
  | document => .ok document

def settleItems : List Document → Except Fault (List Document)
  | [] => .ok []
  | item :: rest => do return (← settle item) :: (← settleItems rest)

def settleFields : List (String × Document) → Except Fault (List (String × Document))
  | [] => .ok []
  | (name, value) :: rest => do return (name, ← settle value) :: (← settleFields rest)

end

/-- A reading tried on a whole document, for which nothing else is known than how it
looks: the same `5` is no text there. -/
def firstOf {α : Type} (decoders : List (Decoder α)) : Decoder α := fun document => do
  if document.hasMalformed then throw .malformed
  let settled ← settle document
  require (decoders.findSome? fun decode => (decode settled).toOption)

/-- Named fields from the first to the last. Unknown names are passed over; a field
may not be given twice, and `seen` holds those that were. -/
def readNamed {σ : Type} (fields : List (Field σ)) :
    List (String × Document) → List String → σ → Except Fault σ
  | [], seen, value =>
    if fields.all fun f => !f.isRequired || seen.contains f.name then .ok value
    else .error .misshapen
  | (name, document) :: rest, seen, value =>
    match fields.find? fun f => f.names.contains name with
    | none => if document.hasCut then .error .malformed else readNamed fields rest seen value
    | some f =>
      if seen.contains f.name then .error .misshapen
      else
        match f.put document value with
        | .ok value => readNamed fields rest (f.name :: seen) value
        | .error fault => .error fault

/-- Fields by position. Those that are left without an item must be optional, and
no item may be left. -/
def readInOrder {σ : Type} : List (Field σ) → List Document → σ → Except Fault σ
  | [], [], value => .ok value
  | [], _ :: _, _ => .error .malformed
  | f :: fields, [], value =>
    if f.isRequired then .error .misshapen else readInOrder fields [] value
  | f :: fields, document :: rest, value =>
    match f.put document value with
    | .ok value => readInOrder fields rest value
    | .error fault => .error fault

/-- A record read onto a start value, by name or as a list in the order of its
fields. Required fields are always read, so their start is never seen. -/
def record {σ : Type} (fields : List (Field σ)) (start : σ) : Decoder σ
  | .record entries => readNamed fields entries [] start
  | .list items => readInOrder fields items start
  | .plain s => if s.isEmpty then readNamed fields [] [] start else .error .misshapen
  | document => .error (mismatch document)

end Decoder

instance Decoder.codec : Codec where
  readJson := Json.read
  writeJson := Json.compact
  readYaml := Yaml.read
  null := Decoder.null
  bool := Decoder.bool
  nat := Decoder.nat
  float := Decoder.float
  text := Decoder.text
  option := Decoder.option
  list := Decoder.list
  entries := Decoder.entries
  word := Decoder.word
  firstOf := Decoder.firstOf
  record := Decoder.record

end Tabular

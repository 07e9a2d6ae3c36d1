import StoreGateway.Document.Store
import StoreGateway.Json.Reader
import StoreGateway.Table.Store

/-!
Stores as text that reads back as the same store. Properties are text within that text, in which a
float is written as its sign and its count of least steps, and an array starts with a word of its
own.
-/

namespace StoreGateway.Archive

mutual

def pack : Value → Value
  | .float x => .array [.string "float", .bool x.negative, .string (toString x.steps)]
  | .array items => .array (.string "array" :: packItems items)
  | .object members => .object (packMembers members)
  | v => v

def packItems : List Value → List Value
  | [] => []
  | v :: rest => pack v :: packItems rest

def packMembers : List (String × Value) → List (String × Value)
  | [] => []
  | (name, v) :: rest => (name, pack v) :: packMembers rest

end

def steps? (text : String) : Option Nat :=
  if text ≠ "" ∧ text.toList.all Char.isDigit then some (Decimal.natOfDigits text.toList) else none

mutual

def unpack? : Value → Option Value
  | .float _ => none
  | .array [.string "float", .bool negative, .string steps] =>
    (steps? steps).map fun n => .float ⟨negative, n⟩
  | .array (.string "array" :: items) => (unpackItems? items).map .array
  | .array _ => none
  | .object members => (unpackMembers? members).map .object
  | v => some v

def unpackItems? : List Value → Option (List Value)
  | [] => some []
  | v :: rest => do return (← unpack? v) :: (← unpackItems? rest)

def unpackMembers? : List (String × Value) → Option (List (String × Value))
  | [] => some []
  | (name, v) :: rest => do return (name, ← unpack? v) :: (← unpackMembers? rest)

end

def properties (r : Record) : Value := .string (Json.write (.object (packMembers r)))

/-- A float is an array here, so texts are nested one deeper than those that callers write. -/
def read? (text : String) : Option Value :=
  match Json.readWithin (Json.maxDepth + 1) .all text with
  | .ok v => some (Json.sorted v)
  | .error _ => none

def string? (r : Record) (name : String) : Option String := (r.get? name).bind Value.string?

def items? (r : Record) (name : String) : Option (List Value) :=
  match r.get? name with
  | some (.array items) => some items
  | _ => none

def properties? (r : Record) : Option Record := do
  (← unpack? (← read? (← string? r "properties"))).object?

def entity (e : Entity) : Value :=
  .object [("table", .string e.table), ("partition", .string e.partition), ("row", .string e.row),
    ("properties", properties e.properties), ("timestamp", .string e.timestamp)]

def entity? (v : Value) : Option Entity := do
  let r ← v.object?
  return ⟨← string? r "table", ← string? r "partition", ← string? r "row", ← properties? r,
    ← string? r "timestamp"⟩

def document (d : Document) : Value :=
  .object [("id", .string d.id), ("modified", .string d.modifiedAt),
    ("properties", properties d.properties)]

def document? (v : Value) : Option Document := do
  let r ← v.object?
  return ⟨← string? r "id", ← string? r "modified", ← properties? r⟩

def collection (c : Collection) : Value :=
  .object [("name", .string c.name), ("documents", .array (c.documents.map document))]

def collection? (v : Value) : Option Collection := do
  let r ← v.object?
  return ⟨← string? r "name", ← (← items? r "documents").mapM document?⟩

def ofEntities (entities : List Entity) : String :=
  Json.write (.object [("entities", .array (entities.map entity))])

def entities? (text : String) : Option (List Entity) := do
  (← items? (← (← read? text).object?) "entities").mapM entity?

def ofCollections (collections : List Collection) : String :=
  Json.write (.object [("collections", .array (collections.map collection))])

def collections? (text : String) : Option (List Collection) := do
  (← items? (← (← read? text).object?) "collections").mapM collection?

end StoreGateway.Archive

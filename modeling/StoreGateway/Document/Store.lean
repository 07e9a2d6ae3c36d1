import StoreGateway.Document.Query
import StoreGateway.Json.Number
import StoreGateway.Store.Backend
import StoreGateway.Text.Alphanumeric

/-!
The document store: collections of documents, both listed by name. A collection comes into being
with the first attempt to write to it and stays when it is empty. Documents are kept as text, so
floats come back as that text reads, and a document is not read back that is nested deeper than texts
are read.
-/

namespace StoreGateway

structure Collection where
  name : String
  documents : List Document
  deriving Repr

structure DocumentStore where
  collections : List Collection
  supply : Supply
  deriving Repr

abbrev DocumentCall (α : Type) := ExceptT DocumentFault (StateM DocumentStore) α

namespace DocumentStore

def empty (supply : Supply) : DocumentStore := ⟨[], supply⟩

def maxNameBytes : Nat := 255

def isNameChar (c : Char) : Bool := Text.isAlphanumeric c || c == '_' || c == '-'

def checkName (name : String) : Except DocumentFault Unit :=
  if name = "" then .error (.invalidCollection "name cannot be empty")
  else if Document.isReserved name then
    .error (.invalidCollection "name cannot start with underscore")
  else if !name.toList.all isNameChar then .error (.invalidCollection "name must be alphanumeric")
  else .ok ()

def isIdChar (c : Char) : Bool :=
  Text.isAlphanumeric c || c == '-' || c == '_' || c == '.' || c == ':' || c == '@'

def checkId (id : String) : Except DocumentFault Unit :=
  if id ≠ "" ∧ id.toList.head? ≠ some '.' ∧ id.toList.all isIdChar then .ok ()
  else .error (.invalidId id)

def tooLong : DocumentFault := .io "File name too long"

def collection? (s : DocumentStore) (name : String) : Option Collection :=
  s.collections.find? (·.name == name)

def documents (s : DocumentStore) (name : String) : List Document :=
  ((s.collection? name).map Collection.documents).getD []

def document? (s : DocumentStore) (name id : String) : Option Document :=
  (s.documents name).find? (·.id == id)

/-- Puts a document at its place, over one with its identifier. -/
def placeDocument (d : Document) : List Document → List Document
  | [] => [d]
  | e :: rest =>
    if e.id = d.id then d :: rest
    else if d.id < e.id then d :: e :: rest
    else e :: placeDocument d rest

/-- Changes the documents of a collection, which is created if there is none of the name. -/
def updateIn (name : String) (change : List Document → List Document) :
    List Collection → List Collection
  | [] => [⟨name, change []⟩]
  | c :: rest =>
    if c.name = name then ⟨name, change c.documents⟩ :: rest
    else if name < c.name then ⟨name, change []⟩ :: c :: rest
    else c :: updateIn name change rest

def update (name : String) (change : List Document → List Document) : DocumentCall Unit :=
  modify fun s => { s with collections := updateIn name change s.collections }

def stamp : DocumentCall String := do
  let s ← get
  let (text, supply) := s.supply.stamp
  set { s with supply := supply }
  return text

/-- Keeps a document. The collection is there from then on, even if the document is refused. -/
def write (name : String) (d : Document) : DocumentCall Unit := do
  if maxNameBytes < name.utf8ByteSize then throw tooLong
  update name id
  checkId d.id
  if maxNameBytes < (d.id ++ ".json").utf8ByteSize then throw tooLong
  update name (placeDocument d)

/-- The document as it is read back. -/
def reread (d : Document) : Except DocumentFault Document :=
  match Json.rereadRecord d.properties with
  | .ok properties => .ok { d with properties := properties }
  | .error fault => .error (.json fault.message)

/-- The stored document with an identifier. -/
def find (name id : String) : DocumentCall Document := do
  checkId id
  match (← get).document? name id with
  | none => throw (.notFound id)
  | some d => reread d

def insert (name : String) (r : Record) : DocumentCall Document := do
  let s ← get
  let (d, supply) := Document.ofRecord r s.supply
  set { s with supply := supply }
  checkId d.id
  if (s.document? name d.id).isSome then throw (.duplicate d.id)
  write name d
  return d

def upsert (name id : String) (r : Record) : DocumentCall Document := do
  let d := Document.withId id r (← stamp)
  write name d
  return d

def replace (name id : String) (r : Record) : DocumentCall Document := do
  checkId id
  if ((← get).document? name id).isNone then throw (.notFound id)
  upsert name id r

def merge (name id : String) (r : Record) : DocumentCall Document := do
  let d := (← find name id).merge r (← stamp)
  write name d
  return d

def delete (name id : String) : DocumentCall Unit := do
  checkId id
  if ((← get).document? name id).isNone then throw (.notFound id)
  update name fun documents => documents.filter (·.id != id)

def all (name : String) : DocumentCall (List Document) := do
  ((← get).documents name).mapM fun d => reread d

def query (name : String) (q : NativeQuery) : DocumentCall (List Record) := do
  DocumentQuery.run q (← all name)

def count (name : String) (q : NativeQuery) : DocumentCall Nat := do
  DocumentQuery.count q (← all name)

def names (s : DocumentStore) : List String := s.collections.map Collection.name

/-- Whether a collection is there, and the identifiers in it. -/
def ids (s : DocumentStore) (name : String) : Except DocumentFault (Bool × List String) := do
  checkName name
  return ((s.collection? name).isSome, (s.documents name).map Document.id)

def named {α : Type} (name : String) (call : DocumentCall α) : Call DocumentStore α :=
  (ExceptT.adapt DocumentFault.toStoreFault (do checkName name; call) : Call DocumentStore α)

def idOf : RecordKey → Except StoreFault String
  | .document id => .ok id
  | .entity partition row =>
    .error (.rejected ("'" ++ (RecordKey.entity partition row).text ++ "' is not a document id"))

def backend : Backend DocumentStore where
  kind := .document
  atomicBatches := false
  query name q := named name (query name q)
  count name q := named name (count name q)
  get name key := do
    let id ← idOf key
    return (← named name (find name id)).toRecord
  insert name r := return (← named name (insert name r)).toRecord
  replace name key r := do
    let id ← idOf key
    return (← named name (replace name id r)).toRecord
  upsert name key r := do
    let id ← idOf key
    return (← named name (upsert name id r)).toRecord
  merge name key r := do
    let id ← idOf key
    return (← named name (merge name id r)).toRecord
  delete name key := do
    let id ← idOf key
    named name (delete name id)
  submitBatch _ _ := Backend.noBatches .document

end DocumentStore

end StoreGateway

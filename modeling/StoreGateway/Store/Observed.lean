import StoreGateway.Store.Backend

/-!
A store seen through its calls: each is written down in order, and chosen ones fail before they
reach the store.
-/

namespace StoreGateway

inductive BackendCall where
  | query (q : NativeQuery)
  | count (text : String)
  | get (key : RecordKey)
  | insert (key : Option RecordKey)
  | replace (key : RecordKey)
  | upsert (key : RecordKey)
  | merge (key : RecordKey)
  | delete (key : RecordKey)
  | batch (items : List (String × Option RecordKey))
  deriving Repr

namespace Value

def kindName : Value → String
  | null => "null"
  | bool _ => "bool"
  | int _ => "int"
  | float _ => "float"
  | string _ => "string"
  | array _ => "array"
  | object _ => "object"

/-- A value with its kind, which JSON text alone does not always tell. -/
def typed (v : Value) : Value :=
  .object [("text", .string (Json.write v)), ("type", .string v.kindName)]

end Value

def BoundParam.toValue (p : BoundParam) : Value :=
  .object [("placeholder", .string p.placeholder), ("value", p.value.typed)]

namespace BackendCall

def keyText (key : Option RecordKey) : String := (key.map RecordKey.text).getD "-"

def name : BackendCall → String
  | query _ => "query"
  | count _ => "count"
  | get _ => "get"
  | insert _ => "insert"
  | replace _ => "replace"
  | upsert _ => "upsert"
  | merge _ => "merge"
  | delete _ => "delete"
  | batch _ => "batch"

/-- What a call is about: a key, or the text of a query with its limit and bound values. -/
def subject : BackendCall → String
  | query q =>
    q.text ++ " [" ++ ((q.limit.map toString).getD "-") ++ "] " ++
      Json.write (.array (q.params.map BoundParam.toValue))
  | count text => text
  | insert key => keyText key
  | get key | replace key | upsert key | merge key | delete key => key.text
  | batch items => "; ".intercalate (items.map fun (name, key) => name ++ " " ++ keyText key)

def text (c : BackendCall) : String := c.name ++ " " ++ c.subject

end BackendCall

/-- Makes calls of a name fail: all or those with a subject, for ever or a number of times. -/
structure Injection where
  name : String
  subject : Option String
  fault : String → StoreFault
  times : Option Nat

namespace Injection

def applies (i : Injection) (c : BackendCall) : Bool :=
  i.name == c.name && (i.subject == none || i.subject == some c.subject) && i.times != some 0

def used (i : Injection) : Injection := { i with times := i.times.map (· - 1) }

/-- The first injection for a call, with the list in which it has been used once more. -/
def take? (c : BackendCall) : List Injection → Option (Injection × List Injection)
  | [] => none
  | i :: rest =>
    if i.applies c then some (i, i.used :: rest)
    else (take? c rest).map fun (found, after) => (found, i :: after)

end Injection

/-- A store, the calls made so far, and the failures still to come. -/
structure Observed (σ : Type) where
  store : σ
  calls : List BackendCall
  injections : List Injection

namespace Observed

variable {σ : Type}

/-- Writes the call down, then fails it or makes it. -/
def observe {α : Type} (c : BackendCall) (call : Call σ α) : Call (Observed σ) α := do
  modify fun o => { o with calls := o.calls ++ [c] }
  let o ← get
  match Injection.take? c o.injections with
  | some (i, injections) =>
    set { o with injections := injections }
    throw (i.fault ("injected failure on " ++ c.text))
  | none =>
    let (outcome, store) := (call.run).run o.store
    set { o with store := store }
    liftExcept outcome
where
  liftExcept {α : Type} : Except StoreFault α → Call (Observed σ) α
    | .ok a => pure a
    | .error fault => throw fault

def ownKey (kind : StoreKind) (r : Record) : Option RecordKey :=
  match kind.keyOf r none with
  | .ok key => some key
  | .error _ => none

def item (kind : StoreKind) : Write → String × Option RecordKey
  | .insert r => ("insert", ownKey kind r)
  | .replace r => ("replace", ownKey kind r)
  | .upsert r => ("upsert", ownKey kind r)
  | .merge r => ("merge", ownKey kind r)
  | .delete key => ("delete", some key)

/-- The store with every call observed. -/
def backend (b : Backend σ) : Backend (Observed σ) where
  kind := b.kind
  atomicBatches := b.atomicBatches
  query table q := observe (.query q) (b.query table q)
  count table q := observe (.count q.text) (b.count table q)
  get table key := observe (.get key) (b.get table key)
  insert table r := observe (.insert (ownKey b.kind r)) (b.insert table r)
  replace table key r := observe (.replace key) (b.replace table key r)
  upsert table key r := observe (.upsert key) (b.upsert table key r)
  merge table key r := observe (.merge key) (b.merge table key r)
  delete table key := observe (.delete key) (b.delete table key)
  submitBatch table writes :=
    observe (.batch (writes.map (item b.kind))) (b.submitBatch table writes)

end Observed

end StoreGateway

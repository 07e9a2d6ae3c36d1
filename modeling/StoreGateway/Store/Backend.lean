import StoreGateway.Compile.Query
import StoreGateway.Store.Fault
import StoreGateway.Store.Key

/-! What a store offers: a call gives an answer or a fault, and may change the state either way. -/

namespace StoreGateway

abbrev Call (σ : Type) (α : Type) := ExceptT StoreFault (StateM σ) α

/-- One operation of an atomic batch. -/
inductive Write where
  | insert (r : Record)
  | replace (r : Record)
  | upsert (r : Record)
  | merge (r : Record)
  | delete (key : RecordKey)
  deriving Repr

/-- A store through its calls. -/
structure Backend (σ : Type) where
  kind : StoreKind
  /-- Whether a batch is applied as a whole or not at all. -/
  atomicBatches : Bool
  query : String → NativeQuery → Call σ (List Record)
  /-- How many records a query matches, without its limit. -/
  count : String → NativeQuery → Call σ Nat
  get : String → RecordKey → Call σ Record
  /-- Creates a record; its key is in it, or is made up. -/
  insert : String → Record → Call σ Record
  /-- Overwrites a record that exists. -/
  replace : String → RecordKey → Record → Call σ Record
  /-- Overwrites or creates a record. -/
  upsert : String → RecordKey → Record → Call σ Record
  /-- Sets some properties of a record that exists. -/
  merge : String → RecordKey → Record → Call σ Record
  delete : String → RecordKey → Call σ Unit
  submitBatch : String → List Write → Call σ (List Record)

namespace Backend

/-- Counting by running the query without its limit. -/
def countByQuery {σ : Type} (query : String → NativeQuery → Call σ (List Record)) (table : String)
    (q : NativeQuery) : Call σ Nat := do
  return (← query table { q with limit := none }).length

/-- What a store without atomic batches answers. -/
def noBatches {σ : Type} (kind : StoreKind) : Call σ (List Record) :=
  throw (.unsupported (kind.name ++ " backend has no atomic batches"))

end Backend

end StoreGateway

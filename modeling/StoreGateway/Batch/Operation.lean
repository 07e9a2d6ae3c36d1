import StoreGateway.Batch.Selection
import StoreGateway.Batch.Verb
import StoreGateway.RequestError

/-! The items of a batch: as they are asked for, and as they are sent. -/

namespace StoreGateway

structure Operation where
  index : Nat
  verb : Verb
  /-- Where the record is, if not where it says itself. -/
  key : Option RecordKey
  record : Option Record
  deriving Repr

namespace Operation

def ofRecords (verb : Verb) (records : List Record) : List Operation :=
  records.zipIdx.map fun (r, index) => ⟨index, verb, none, some r⟩

/-- One operation for each key, with the same record in all of them. -/
def ofKeys (verb : Verb) (keys : List RecordKey) (record : Option Record) : List Operation :=
  keys.zipIdx.map fun (key, index) => ⟨index, verb, some key, record⟩

end Operation

structure BatchOptions where
  rollback : Bool
  continueOnError : Bool
  fields : Selection
  /-- The partition of every entity of the batch. -/
  partition : Option String
  deriving Repr

/-- An operation with its record completed. Only documents to create may have no key. -/
structure Prepared where
  index : Nat
  verb : Verb
  key : Option RecordKey
  record : Record
  deriving Repr

namespace Prepared

def requireKey (p : Prepared) : Except RequestError RecordKey :=
  match p.key with
  | some key => .ok key
  | none => .error (.missingIdentifier (.item p.index))

/-- The one partition that all items are in. -/
def sharedPartition? : List Prepared → Option String
  | [] => none
  | p :: rest => do
    let partition ← p.key.bind RecordKey.partition?
    if rest.all fun q => q.key.bind RecordKey.partition? == some partition then some partition
    else none

end Prepared

namespace Operation

/-- The record without what callers can not set, in the partition of the batch if there is one. -/
def normalised (kind : StoreKind) (partition : Option String) (r : Record) : Record :=
  match kind with
  | .document => r
  | .table =>
    let kept := r.erase timestamp
    match partition with
    | some p => if kept = [] then kept else kept.insert partitionKey (.string p)
    | none => kept

def keyFor (kind : StoreKind) (partition : Option String) (op : Operation) (r : Record) :
    Except RequestError (Option RecordKey) :=
  match op.key with
  | some key => .ok (some key)
  | none =>
    match kind.keyOf r partition with
    | .ok key => .ok (some key)
    | .error fault =>
      if op.verb = .create ∧ kind = .document then .ok none
      else .error (.missingIdentifier (.key fault))

/-- Checks an operation and completes its record, without a call to the store. -/
def prepare (kind : StoreKind) (partition : Option String) (op : Operation) :
    Except RequestError Prepared := do
  let r := normalised kind partition (op.record.getD [])
  if op.verb.needsRecord ∧ r = [] then throw (.badRequest .noRecord)
  let key ← op.keyFor kind partition r
  let completed := match key with
    | some key => if op.verb.needsRecord then r.extend key.toRecord else r
    | none => r
  return ⟨op.index, op.verb, key, completed⟩

end Operation

end StoreGateway

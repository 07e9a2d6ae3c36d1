import StoreGateway.Compile.Entity
import StoreGateway.Filter.Evaluation
import StoreGateway.Json.Number
import StoreGateway.Store.Backend
import StoreGateway.Store.Clock

/-!
The partitioned entity table. Entities are kept by table, partition key and row key, and are listed
in that order. Their properties are kept as text, so floats come back as that text reads, and an
entity is not read back that is nested deeper than texts are read.
-/

namespace StoreGateway

/-- The properties are those that callers set: neither the keys nor the timestamp are among them. -/
structure Entity where
  table : String
  partition : String
  row : String
  properties : Record
  timestamp : String
  deriving Repr

namespace Entity

def hasKey (e : Entity) (table partition row : String) : Bool :=
  e.table == table && e.partition == partition && e.row == row

def precedes (e f : Entity) : Bool :=
  ((compare e.table f.table).then ((compare e.partition f.partition).then (compare e.row f.row)))
    == .lt

def isProperty (name : String) : Bool :=
  name != partitionKey && name != rowKey && name != StoreGateway.timestamp

def propertiesOf (r : Record) : Record := r.filter fun (name, _) => isProperty name

/-- The record with its keys, its timestamp and the given properties. -/
def record (e : Entity) (properties : Record) : Record :=
  Record.extend
    [(partitionKey, .string e.partition), (rowKey, .string e.row),
      (StoreGateway.timestamp, .string e.timestamp)]
    properties

/-- The entity as it is read back. -/
def read (e : Entity) : Except StoreFault Record :=
  match Json.rereadRecord e.properties with
  | .ok properties => .ok (e.record properties)
  | .error fault => .error (.json fault.message)

end Entity

/-- Entities in the order of their keys, and how many operations a batch may have. -/
structure EntityTable where
  entities : List Entity
  maxBatch : Nat
  supply : Supply
  deriving Repr

namespace EntityTable

def defaultMaxBatch : Nat := 100

def empty (maxBatch : Nat) (supply : Supply) : EntityTable := ⟨[], max 1 maxBatch, supply⟩

/-- Puts an entity at its place, over one with its key. -/
def place (e : Entity) : List Entity → List Entity
  | [] => [e]
  | f :: rest =>
    if f.hasKey e.table e.partition e.row then e :: rest
    else if e.precedes f then e :: f :: rest
    else f :: place e rest

def find? (t : EntityTable) (table partition row : String) : Option Entity :=
  t.entities.find? fun e => e.hasKey table partition row

def missing (partition row : String) : StoreFault :=
  .notFound (missingText (RecordKey.entity partition row).text)

/-- The record with a key, if there is one. -/
def load (table partition row : String) : Call EntityTable (Option Record) := do
  match (← get).find? table partition row with
  | none => return none
  | some e => return some (← e.read)

inductive WriteMode where
  | insert
  | replace
  | upsert
  | merge
  deriving DecidableEq, Repr

/-- The properties after a write, from those before it and those written. -/
def written (mode : WriteMode) (partition row : String) (existing : Option Record) (r : Record) :
    Except StoreFault Record :=
  match mode, existing with
  | .insert, some _ =>
    .error (.conflict
      ("The specified entity already exists: " ++ (RecordKey.entity partition row).text))
  | .replace, none => .error (missing partition row)
  | .merge, none => .error (missing partition row)
  | .merge, some current =>
    .ok ((Entity.propertiesOf current).extend (Entity.propertiesOf r))
  | _, _ => .ok (Entity.propertiesOf r)

def write (mode : WriteMode) (table partition row : String) (r : Record) :
    Call EntityTable Record := do
  let properties ← written mode partition row (← load table partition row) r
  let t ← get
  let (stamp, supply) := t.supply.stamp
  let e : Entity := ⟨table, partition, row, properties, stamp⟩
  set { t with entities := place e t.entities, supply := supply }
  return e.record properties

def remove (table partition row : String) : Call EntityTable Unit := do
  let t ← get
  if (t.find? table partition row).isNone then throw (missing partition row)
  set { t with entities := t.entities.filter fun e => !e.hasKey table partition row }

/-- The keys of a record that names them itself. -/
def ownKey (r : Record) : Except StoreFault (String × String) :=
  match StoreKind.table.keyOf r none with
  | .ok (.entity partition row) => .ok (partition, row)
  | .ok (.document id) => .error (.rejected ("'" ++ id ++ "' is not an entity key"))
  | .error fault => .error (.rejected fault.message)

def keyParts : RecordKey → Except StoreFault (String × String)
  | .entity partition row => .ok (partition, row)
  | .document id => .error (.rejected ("'" ++ id ++ "' is not an entity key"))

def writeOwn (mode : WriteMode) (table : String) (r : Record) : Call EntityTable Record := do
  let (partition, row) ← ownKey r
  write mode table partition row r

def writeAt (mode : WriteMode) (table : String) (key : RecordKey) (r : Record) :
    Call EntityTable Record := do
  let (partition, row) ← keyParts key
  write mode table partition row r

/-- One operation of a batch, and the record that it answers with. -/
def apply (table : String) : Write → Call EntityTable Record
  | .insert r => writeOwn .insert table r
  | .replace r => writeOwn .replace table r
  | .upsert r => writeOwn .upsert table r
  | .merge r => writeOwn .merge table r
  | .delete key => do
    let (partition, row) ← keyParts key
    remove table partition row
    return key.toRecord

/-- Applies operations in order; a fault names the index of its operation. -/
def applyAll (table : String) (index : Nat) : List Write → Call EntityTable (List Record)
  | [] => pure []
  | w :: rest => do
    let r ← tryCatch (apply table w) fun fault => throw (.batch index fault)
    return r :: (← applyAll table (index + 1) rest)

def partitionOf : Write → Option String
  | .delete key => key.partition?
  | .insert r | .replace r | .upsert r | .merge r =>
    match ownKey r with
    | .ok (partition, _) => some partition
    | .error _ => none

/-- Whether all operations are in one partition, or all in none. -/
def samePartition : List Write → Bool
  | [] => true
  | w :: rest => rest.all fun v => partitionOf v == partitionOf w

/-- A batch within one partition takes effect as a whole or not at all. -/
def submit (table : String) (writes : List Write) : Call EntityTable (List Record) := do
  let before ← get
  if before.maxBatch < writes.length then
    throw (.rejected ("batch of " ++ toString writes.length ++
      " operations exceeds the limit of " ++ toString before.maxBatch))
  if !samePartition writes then
    throw (.rejected "all operations in a batch must share one partition key")
  tryCatch (applyAll table 0 writes) fun fault => do
    set before
    throw fault

/-- The filter of a query; the service limits its comparisons. -/
def filterOf (q : NativeQuery) : Except StoreFault (Option Filter) :=
  match Filter.parse q.paramsByName q.text with
  | .error fault => .error (.rejected (CompileFault.filter fault).message)
  | .ok none => .ok none
  | .ok (some f) =>
    if Entity.maxComparisons < f.comparisonCount then
      .error (.rejected ("filter has " ++ toString f.comparisonCount ++
        " comparisons, the limit is " ++ toString Entity.maxComparisons))
    else .ok (some f)

def keeps (params : Params) (filter : Option Filter) (r : Record) : Except StoreFault Bool :=
  match filter with
  | none => .ok true
  | some f =>
    match f.holds params none r with
    | .ok kept => .ok kept
    | .error fault => .error (.rejected fault.message)

/-- The records that the filter keeps, as many as are wanted; what comes after is not looked at. -/
def select (params : Params) (filter : Option Filter) (limit : Option Nat) :
    List Entity → Except StoreFault (List Record)
  | [] => .ok []
  | e :: rest =>
    if limit = some 0 then .ok []
    else do
      let r ← e.read
      if ← keeps params filter r then
        return r :: (← select params filter (limit.map (· - 1)) rest)
      else select params filter limit rest

def query (table : String) (q : NativeQuery) : Call EntityTable (List Record) := do
  let filter ← filterOf q
  let t ← get
  select q.paramsByName filter q.limit (t.entities.filter (·.table == table))

def tables (t : EntityTable) : List String :=
  t.entities.foldr
    (fun e names => if names.head? = some e.table then names else e.table :: names) []

def backend : Backend EntityTable where
  kind := .table
  atomicBatches := true
  query := query
  count := Backend.countByQuery query
  get table key := do
    let (partition, row) ← keyParts key
    match ← load table partition row with
    | some r => return r
    | none => throw (missing partition row)
  insert := writeOwn .insert
  replace := writeAt .replace
  upsert := writeAt .upsert
  merge := writeAt .merge
  delete table key := do
    let (partition, row) ← keyParts key
    remove table partition row
  submitBatch := submit

end EntityTable

end StoreGateway

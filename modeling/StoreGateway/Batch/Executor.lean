import StoreGateway.Batch.Operation
import StoreGateway.Batch.UndoLog
import StoreGateway.Compile.Entity

/-!
Running a batch. By default it stops at the first item that fails; it may go on past failures, or
undo what it has done. Undoing is left to a store with atomic batches where all items share a
partition.
-/

namespace StoreGateway

inductive BatchState where
  | idle
  | collecting
  | committing
  | committed
  | rolledBack
  | failed
  deriving DecidableEq, Repr

def BatchState.name : BatchState → String
  | idle => "idle"
  | collecting => "collecting"
  | committing => "committing"
  | committed => "committed"
  | rolledBack => "rolled_back"
  | failed => "failed"

/-- How a batch treats a failure. A single item always behaves as a plain call. -/
structure Policy where
  verb : Verb
  total : Nat
  rollback : Bool
  continueOnError : Bool
  deriving DecidableEq, Repr

/-- What a batch has done so far. -/
structure Run where
  result : BatchResult
  log : UndoLog

/-- The store, and how far a batch has come. -/
structure Progress (σ : Type) where
  store : σ
  state : BatchState

abbrev Running (σ α : Type) := ExceptT RequestError (StateM (Progress σ)) α

namespace Running

variable {σ α : Type}

def enter (state : BatchState) : Running σ Unit := modify fun p => { p with state := state }

/-- Makes a call and gives back how it ended. -/
def call (c : Call σ α) : Running σ (Except StoreFault α) := do
  let p ← get
  let (outcome, store) := c.run.run p.store
  set { p with store := store }
  return outcome

/-- Makes a call that ends the batch if it fails. -/
def perform (c : Call σ α) : Running σ α := do
  match ← call c with
  | .ok a => return a
  | .error fault => throw (.ofStore fault)

/-- Runs something that may fail and gives back how it ended. -/
def attempt (r : Running σ α) : Running σ (Except RequestError α) :=
  tryCatch (do return .ok (← r)) fun e => return .error e

end Running

open Running

structure Executor (σ : Type) where
  backend : Backend σ
  table : String
  options : BatchOptions
  /-- Whether replacing creates records that are not there. -/
  upsertAllowed : Bool
  maxBatch : Nat
  maxIds : Nat

namespace Executor

variable {σ : Type}

def defaultMaxBatch : Nat := 100

def new (backend : Backend σ) (table : String) (options : BatchOptions) : Executor σ :=
  ⟨backend, table, options, false, defaultMaxBatch, Entity.maxIds⟩

def withUpsert (e : Executor σ) (allowed : Bool) : Executor σ := { e with upsertAllowed := allowed }

def withLimits (e : Executor σ) (maxBatch maxIds : Nat) : Executor σ :=
  { e with maxBatch := max 1 maxBatch, maxIds := maxIds }

def clean (e : Executor σ) (r : Record) : Record := e.options.fields.clean e.backend.kind r

def policy (e : Executor σ) (verb : Verb) (total : Nat) : Policy :=
  ⟨verb, total, e.options.rollback && total != 1, e.options.continueOnError && total != 1⟩

abbrev Images := List (String × Record)

def addImages (images : Images) (records : List Record) : Images :=
  records.foldl
    (fun images r => match r.get? rowKey with
      | some (.string row) => (row, r) :: images
      | _ => images)
    images

def Images.of? (images : Images) (key : RecordKey) : Option Record :=
  key.row?.bind fun row => images.lookup row

def queryAll (e : Executor σ) (images : Images) : List String → Running σ Images
  | [] => pure images
  | text :: rest => do
    let records ← perform (e.backend.query e.table (.ofText text))
    e.queryAll (addImages images records) rest

/-- The records that some items of one partition address, found by their row keys. -/
def fetch (e : Executor σ) (partition : String) (items : List Prepared) : Running σ Images :=
  let rows := items.filterMap fun p => p.key.bind RecordKey.row?
  let compiler := Entity.Compiler.new (FieldMap.openFor .table) [] e.maxIds
  e.queryAll [] (compiler.idsFilters rows (some partition))

def missing (key : RecordKey) : RequestError := .notFound (missingText key.text)

/-- The record before a change. It is looked up only where it is wanted. -/
def prior (e : Executor σ) (rollback : Bool) (images : Option Images) (verb : Verb)
    (key : RecordKey) : Running σ (Option Record) :=
  match images with
  | some images =>
    match images.of? key with
    | some image => return some image
    | none => throw (missing key)
  | none =>
    if rollback || (verb == .delete && e.options.fields != .idsOnly) then do
      match ← call (e.backend.get e.table key) with
      | .ok r => return some r
      | .error (.notFound _) => return none
      | .error fault => throw (.ofStore fault)
    else return none

/-- Changes a record that is addressed by its key. -/
def change (e : Executor σ) (item : Prepared) (key : RecordKey) (prior : Option Record) :
    Running σ Record :=
  match item.verb with
  | .replace =>
    if e.upsertAllowed then perform (e.backend.upsert e.table key item.record)
    else perform (e.backend.replace e.table key item.record)
  | .patch => perform (e.backend.merge e.table key item.record)
  | _ => do
    perform (e.backend.delete e.table key)
    return prior.getD key.toRecord

/-- Sends one item. With its record comes what undoes it, if that may be asked for. -/
def send (e : Executor σ) (rollback : Bool) (images : Option Images) (item : Prepared) :
    Running σ (Record × Option UndoEntry) :=
  match item.verb with
  | .get => do
    let key ← item.requireKey
    return (← perform (e.backend.get e.table key), none)
  | .create => do
    let created ← perform (e.backend.insert e.table item.record)
    match e.backend.kind.keyOf created none with
    | .ok key => return (created, if rollback then some ⟨.create, key, none⟩ else none)
    | .error _ => return (created, none)
  | verb => do
    let key ← item.requireKey
    let prior ← e.prior rollback images verb key
    let r ← e.change item key prior
    let creates := verb == .replace && e.upsertAllowed
    let undoable := rollback && (prior.isSome || creates)
    return (r, if undoable then some ⟨verb, key, prior⟩ else none)

/-- Undoes what has been done. -/
def rollBack (e : Executor σ) (log : UndoLog) : Running σ Unit := do
  let p ← get
  let (_, store) := (UndoLog.compensate e.backend e.table log.entries).run p.store
  set { p with store := store }

/-- Takes in the outcome of an item, or ends the batch as the policy says. -/
def settle (e : Executor σ) (policy : Policy) (run : Run) (index : Nat)
    (outcome : Except RequestError (Record × Option UndoEntry)) : Running σ Run :=
  match outcome with
  | .ok (r, undo) =>
    return ⟨run.result.record index (e.clean r), match undo with
      | some u => run.log.record u
      | none => run.log⟩
  | .error error =>
    if policy.continueOnError then
      return { run with result := run.result.fail index error.message }
    else if policy.rollback then do
      enter .rolledBack
      e.rollBack run.log
      throw error
    else do
      enter .failed
      if policy.total = 1 then throw error
      let result := run.result.fail index error.message
      throw (.batch policy.verb.failureMessage result.failed result.resource error)

def commit (run : Run) : Running σ BatchResult := do
  enter .committed
  return run.result

/-- Sends items one after the other. -/
def sendAll (e : Executor σ) (policy : Policy) (images : Option Images) (run : Run) :
    List (Nat × Except RequestError Prepared) → Running σ Run
  | [] => pure run
  | (index, item) :: rest => do
    let outcome ← match item with
      | .ok p => attempt (e.send policy.rollback images p)
      | .error error => pure (.error error)
    let run ← e.settle policy run index outcome
    e.sendAll policy images run rest

/-- Answers items from records that were fetched before. -/
def answerAll (e : Executor σ) (policy : Policy) (found : Images) (run : Run) :
    List Prepared → Running σ Run
  | [] => pure run
  | item :: rest => do
    let outcome : Except RequestError (Record × Option UndoEntry) := do
      let key ← item.requireKey
      match found.of? key with
      | some r => return (r, none)
      | none => throw (missing key)
    let run ← e.settle policy run item.index outcome
    e.answerAll policy found run rest

def write (e : Executor σ) (item : Prepared) : Write :=
  match item.verb, item.key with
  | .delete, some key => .delete key
  | .replace, _ => if e.upsertAllowed then .upsert item.record else .replace item.record
  | .patch, _ => .merge item.record
  | _, _ => .insert item.record

/-- Deleted records are shown as they were, if they were found. -/
def shown (snapshots : Images) (item : Prepared) (r : Record) : Record :=
  match item.verb, item.key with
  | .delete, some key => (snapshots.of? key).getD key.toRecord
  | _, _ => r

/-- Hands all items to the store as one batch. -/
def submit (e : Executor σ) (policy : Policy) (partition : String) (items : List Prepared) :
    Running σ BatchResult := do
  let snapshots ← if policy.verb = .delete then e.fetch partition items else pure []
  enter .committing
  match ← call (e.backend.submitBatch e.table (items.map e.write)) with
  | .ok records =>
    let result := (items.zip records).foldl
      (fun result (item, r) => result.record item.index (e.clean (shown snapshots item r)))
      BatchResult.empty
    commit ⟨result, .empty⟩
  | .error (.batch _ source) =>
    enter .rolledBack
    throw (.ofStore source)
  | .error fault =>
    enter .failed
    throw (.ofStore fault)

def allPrepared? (items : List (Nat × Except RequestError Prepared)) : Option (List Prepared) :=
  items.mapM fun (_, item) => item.toOption

/-- How the items of a batch reach the store. -/
inductive Route where
  | atomic (partition : String) (items : List Prepared)
  | reads (partition : String) (items : List Prepared)
  | deletes (partition : String) (items : List Prepared)
  | oneByOne
  deriving Repr

def route (e : Executor σ) (policy : Policy) (items : List (Nat × Except RequestError Prepared)) :
    Route :=
  match allPrepared? items with
  | none => .oneByOne
  | some prepared =>
    match Prepared.sharedPartition? prepared with
    | none => .oneByOne
    | some partition =>
      if policy.rollback && e.backend.atomicBatches && policy.total ≤ e.maxBatch &&
          prepared.all (·.verb.isWrite) then
        .atomic partition prepared
      else if e.backend.kind == .table && policy.total > 1 && policy.verb == .get then
        .reads partition prepared
      else if e.backend.kind == .table && policy.total > 1 && policy.verb == .delete then
        .deletes partition prepared
      else .oneByOne

/-- Runs the operations of a batch, all of the verb of the first. -/
def execute (e : Executor σ) (ops : List Operation) : Running σ BatchResult :=
  match ops with
  | [] => throw (.badRequest .noRecords)
  | first :: _ => do
    let policy := e.policy first.verb ops.length
    if policy.rollback && policy.continueOnError then throw .conflictingPolicies
    enter .collecting
    let items := ops.map fun op => (op.index, op.prepare e.backend.kind e.options.partition)
    match e.route policy items with
    | .atomic partition prepared => e.submit policy partition prepared
    | .reads partition prepared =>
      let found ← e.fetch partition prepared
      commit (← e.answerAll policy found ⟨.empty, .empty⟩ prepared)
    | .deletes partition prepared =>
      let images ← e.fetch partition prepared
      commit (← e.sendAll policy (some images) ⟨.empty, .empty⟩ items)
    | .oneByOne => commit (← e.sendAll policy none ⟨.empty, .empty⟩ items)

end Executor

end StoreGateway

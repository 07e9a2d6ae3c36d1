import StoreGateway.Batch.Executor
import StoreGateway.Compile.Document
import StoreGateway.Config.Basic
import StoreGateway.Gateway.Request
import StoreGateway.SortOrder

/-!
Requests to the tables of one store: reading by filter or by keys, and writing records, keys or all
that a filter finds. Every filter is joined with the conditions of the service.
-/

namespace StoreGateway

structure Gateway (σ : Type) where
  backend : Backend σ
  /-- Declared tables; other tables are open. -/
  schemas : List (String × FieldMap)
  limits : Limits
  defaultPartition : Option String
  upsertAllowed : Bool
  serverFilters : Option ServerFilters

abbrev Request (σ α : Type) := ExceptT RequestError (StateM σ) α

namespace Gateway

variable {σ : Type}

def new (backend : Backend σ) : Gateway σ := ⟨backend, [], .default, none, false, none⟩

/-- A later declaration of a table takes the place of an earlier one. -/
def withSchema (g : Gateway σ) (table : String) (fields : FieldMap) : Gateway σ :=
  { g with schemas := (table, fields) :: g.schemas }

def withLimits (g : Gateway σ) (limits : Limits) : Gateway σ := { g with limits := limits }

def withDefaultPartition (g : Gateway σ) (partition : Option String) : Gateway σ :=
  { g with defaultPartition := partition.filter (· ≠ "") }

def withUpsert (g : Gateway σ) (allowed : Bool) : Gateway σ := { g with upsertAllowed := allowed }

def withServerFilters (g : Gateway σ) (filters : ServerFilters) : Gateway σ :=
  { g with serverFilters := some filters }

/-- A gateway with the limits of a configuration, and what it says about tables. -/
def configured (backend : Backend σ) (config : Config) : Gateway σ :=
  let g := (new backend).withLimits config.limits
  match config.store with
  | .table _ partition upsert => (g.withDefaultPartition partition).withUpsert upsert
  | .document _ => g

def kind (g : Gateway σ) : StoreKind := g.backend.kind

def fieldsFor (g : Gateway σ) (table : String) : FieldMap :=
  match g.schemas.lookup table with
  | some fields => fields.withIdentifiers g.kind
  | none => FieldMap.openFor g.kind

/-- The partition of a request, or the default one. Documents have none. -/
def partition (g : Gateway σ) (o : RequestOptions) : Option String :=
  match g.kind with
  | .document => none
  | .table => o.partitionText.or g.defaultPartition

def serverClause (g : Gateway σ) : Except RequestError (Option String) :=
  match g.serverFilters with
  | some filters => filters.toText
  | none => .ok none

def partitionClause (g : Gateway σ) (o : RequestOptions) : Option String :=
  match g.kind with
  | .document => none
  | .table => o.partitionText.map fun p => partitionKey ++ " eq " ++ Literal.quote p

/-- Several clauses stand in parentheses, one stands bare. -/
def joinClauses : List String → Option String
  | [] => none
  | [clause] => some clause
  | clauses => some (" AND ".intercalate (clauses.map fun c => "(" ++ c ++ ")"))

/-- The conditions of the service, the partition of the request and the filter of the caller. -/
def effectiveFilter (g : Gateway σ) (o : RequestOptions) : Except RequestError (Option String) := do
  let server ← g.serverClause
  return joinClauses (server.toList ++ (g.partitionClause o).toList ++ o.filterText.toList)

def compileRequest {α : Type} (outcome : Except CompileFault α) : Except RequestError α :=
  match outcome with
  | .ok a => .ok a
  | .error fault => .error (.compile fault)

def documentCompiler (g : Gateway σ) (table : String) (params : Params) :
    DocumentQuery.Compiler :=
  ⟨table, g.fieldsFor table, params⟩

def entityCompiler (g : Gateway σ) (table : String) (params : Params) : Entity.Compiler :=
  .new (g.fieldsFor table) params g.limits.maxIdsPerFilter

/-- The native filters for a filter text. A table may need several, blank text needs none. -/
def compile (g : Gateway σ) (table text : String) (params : Params) :
    Except RequestError (List CompiledFilter) :=
  match g.kind with
  | .document => do
    return (← compileRequest ((g.documentCompiler table params).compileText text)).toList
  | .table => do
    match ← compileRequest ((Filter.parse params text).mapError .filter) with
    | none => return []
    | some f => compileRequest ((g.entityCompiler table params).compileChunks f)

/-- The limit of a request; zero stands for the limit of the service. -/
def limit (g : Gateway σ) (o : RequestOptions) : Nat :=
  (o.limit.filter (0 < ·)).getD g.limits.maxRecords

def perform {α : Type} (c : Call σ α) : Request σ α := do
  let (outcome, s) := c.run.run (← get)
  set s
  match outcome with
  | .ok a => return a
  | .error fault => throw (.ofStore fault)

def compileFilter (g : Gateway σ) (table : String) (o : RequestOptions) (filter : Option String) :
    Except RequestError (Option CompiledFilter) :=
  match filter with
  | none => .ok none
  | some text => compileRequest ((g.documentCompiler table o.params).compileText text)

/-- The native query of a read from a document store. -/
def documentQuery (g : Gateway σ) (table : String) (o : RequestOptions) (selection : Selection)
    (filter : Option String) : Except RequestError NativeQuery := do
  let compiled ← g.compileFilter table o filter
  let statement :=
    DocumentQuery.statement table compiled (selection.projection .document) o.orderBy
  return ⟨statement, (compiled.map CompiledFilter.params).getD [], some (g.limit o)⟩

/-- A full page is counted by the store. -/
def retrieveDocuments (g : Gateway σ) (table : String) (o : RequestOptions)
    (selection : Selection) (filter : Option String) : Request σ Envelope := do
  let native ← g.documentQuery table o selection filter
  let records ← perform (g.backend.query table native)
  let envelope := Envelope.ofRecords (records.map (selection.clean .document))
  if !o.includeCount then return envelope
  else if records.length < g.limit o then return envelope.withCount records.length
  else return envelope.withCount (← perform (g.backend.count table native))

/-- The native texts of a read from a table; without a filter the text is empty. -/
def entityTexts (g : Gateway σ) (table : String) (o : RequestOptions) (filter : Option String) :
    Except RequestError (List String) := do
  let compiled ← match filter with
    | none => pure []
    | some text => g.compile table text o.params
  return if compiled.isEmpty then [""] else compiled.map CompiledFilter.text

def queryTexts (g : Gateway σ) (table : String) (limit : Nat) :
    List String → Request σ (List Record)
  | [] => pure []
  | text :: rest => do
    let native := { NativeQuery.ofText text with limit := some limit }
    let records ← perform (g.backend.query table native)
    return records ++ (← g.queryTexts table limit rest)

def retrieveEntities (g : Gateway σ) (table : String) (o : RequestOptions)
    (selection : Selection) (filter : Option String) : Request σ Envelope := do
  let texts ← g.entityTexts table o filter
  let found ← g.queryTexts table (g.limit o) texts
  let sorted := match o.orderBy with
    | some keys => Record.sortBy keys none found
    | none => found
  let records := sorted.take (g.limit o)
  let envelope := Envelope.ofRecords (records.map (selection.clean .table))
  return if o.includeCount then envelope.withCount records.length else envelope

/-- The records that a filter finds, or all of them. -/
def retrieve (g : Gateway σ) (table : String) (o : RequestOptions) : Request σ Envelope := do
  let filter ← g.effectiveFilter o
  match g.kind with
  | .document => g.retrieveDocuments table o (o.selection .all) filter
  | .table => g.retrieveEntities table o (o.selection .all) filter

def executor (g : Gateway σ) (table : String) (o : RequestOptions) (default : Selection) :
    Executor σ :=
  let options : BatchOptions :=
    ⟨o.rollback, o.continueOnError, o.selection default, g.partition o⟩
  ((Executor.new g.backend table options).withUpsert g.upsertAllowed).withLimits
    g.limits.maxBatchOperations g.limits.maxIdsPerFilter

/-- Runs a batch from its start, and forgets how far it came. -/
def run (e : Executor σ) (ops : List Operation) : Request σ BatchResult := do
  let (outcome, progress) := (e.execute ops).run.run ⟨← get, .idle⟩
  set progress.store
  liftExcept outcome
where
  liftExcept : Except RequestError BatchResult → Request σ BatchResult
    | .ok result => pure result
    | .error e => throw e

/-- The keys for identifiers, which may have blanks around them. -/
def keysFor (g : Gateway σ) (ids : List String) (o : RequestOptions) :
    Except RequestError (List RecordKey) :=
  if ids = [] then .error (.badRequest .noIds)
  else if ids.any fun id => Text.trim id = "" then .error (.missingIdentifier .emptyId)
  else
    match g.kind with
    | .document => .ok (ids.map fun id => .document (Text.trim id))
    | .table =>
      match g.partition o with
      | none => .error (.missingIdentifier (.key .noPartition))
      | some p => .ok (ids.map fun id => .entity p (Text.trim id))

/-- The records with some identifiers, in their order. -/
def retrieveIds (g : Gateway σ) (table : String) (ids : List String) (o : RequestOptions) :
    Request σ BatchResult := do
  let keys ← g.keysFor ids o
  run (g.executor table o .all) (Operation.ofKeys .get keys none)

/-- Does something with each record, which names its own identifier. -/
def mutateRecords (g : Gateway σ) (table : String) (verb : Verb) (records : List Record)
    (o : RequestOptions) : Request σ BatchResult := do
  if records.isEmpty then throw (.badRequest .noRecords)
  run (g.executor table o .idsOnly) (Operation.ofRecords verb records)

/-- Does something with each identifier, writing the same record to all of them. -/
def mutateIds (g : Gateway σ) (table : String) (verb : Verb) (ids : List String)
    (record : Option Record) (o : RequestOptions) : Request σ BatchResult := do
  let keys ← g.keysFor ids o
  run (g.executor table o .idsOnly) (Operation.ofKeys verb keys record)

def keyOfShown (g : Gateway σ) (v : Value) : Except RequestError (Option RecordKey) :=
  match v.object? with
  | none => .ok none
  | some r =>
    match g.kind.keyOf r none with
    | .ok key => .ok (some key)
    | .error fault => .error (.missingIdentifier (.key fault))

/-- The keys of the records that an answer shows. -/
def keysOfShown (g : Gateway σ) (resource : List Value) : Except RequestError (List RecordKey) := do
  return (← resource.mapM g.keyOfShown).filterMap id

/--
Does something with every record that the filter of the request finds. Deleting needs a filter from
the caller.
-/
def mutateFilter (g : Gateway σ) (table : String) (verb : Verb) (record : Option Record)
    (o : RequestOptions) : Request σ BatchResult := do
  if verb = .delete ∧ o.filterText = none then throw (.badRequest .deleteWithoutFilter)
  let found ← g.retrieve table { o with fields := some "", includeCount := false }
  let keys ← g.keysOfShown found.resource
  if keys.isEmpty then return .empty
  run (g.executor table { o with partition := none } .idsOnly) (Operation.ofKeys verb keys record)

end Gateway

end StoreGateway

import StoreGateway.CommandLine.Command
import StoreGateway.CommandLine.Fault
import StoreGateway.CommandLine.Listing
import StoreGateway.CommandLine.Workspace
import StoreGateway.Gateway.Basic

/-! Running commands: what each prints, and what it leaves in the workspace. -/

namespace StoreGateway.CommandLine

/-- How a command ended: its exit code, and what it printed. -/
structure Report where
  code : Nat
  output : String
  errors : String
  deriving DecidableEq, Repr

abbrev Action (α : Type) := ExceptT CommandFault (StateM Workspace) α

def demand {ε α : Type} (fault : ε → CommandFault) : Except ε α → Action α
  | .ok a => pure a
  | .error e => throw (fault e)

/-- A name and a value on both sides of the first equals sign; values are read as literals. -/
def parameter (text : String) : Except CommandFault (String × Value) :=
  match text.toList.dropWhile (· != '=') with
  | [] => .error (.badParameter text)
  | _ :: value => .ok (Text.trim (String.ofList (text.toList.takeWhile (· != '='))),
      Literal.infer (Text.trim (String.ofList value)))

def parameters (texts : List String) : Except CommandFault Params := do
  return Record.ofMembers (← texts.mapM parameter)

/-- An object, an array of objects, or an object with such an array as its resource. -/
def inputItems : Value → Except CommandFault (List Value)
  | .object r =>
    match Record.get? r "resource" with
    | some (.array items) => .ok items
    | some _ => .error .resourceNotArray
    | none => .ok [.object r]
  | .array items => .ok items
  | _ => .error .inputNotRecords

def inputRecord (v : Value) : Except CommandFault Record :=
  match v.object? with
  | some r => .ok r
  | none => .error (.notRecord v)

def inputRecords (content : String) : Except CommandFault (List Record) := do
  let v ← (Json.read content).mapError .badInput
  (← inputItems v).mapM inputRecord

def readInput (path : String) : Action (List Record) := do
  match (← get).text? path with
  | none => throw (.noInput path)
  | some content => demand id (inputRecords content)

def configPath (directory : String) : String := Config.joinPath directory Config.fileName

def loadConfig (directory : String) : Action Config := do
  let path := configPath directory
  demand (.config directory) (Config.load path ((← get).text? path))

/-- The entities at a path; what is not there is empty. -/
def openEntities (path : String) (maxBatch : Nat) : Action EntityTable := do
  let w ← get
  let table := EntityTable.empty maxBatch w.supply
  match w.find? path with
  | none => return table
  | some (.entities es) => return { table with entities := es }
  | some _ => throw (.store (.database "file is not a database"))

/-- The collections at a path; what is not there is empty. -/
def openCollections (path : String) : Action DocumentStore := do
  let w ← get
  match w.find? path with
  | none => return .empty w.supply
  | some (.collections cs) => return ⟨cs, w.supply⟩
  | some _ => throw (.store (.io "File exists"))

def keepEntities (path : String) (t : EntityTable) : Action Unit :=
  modify fun w => { w.put path (.entities t.entities) with supply := t.supply }

def keepCollections (path : String) (s : DocumentStore) : Action Unit :=
  modify fun w => { w.put path (.collections s.collections) with supply := s.supply }

/-- A store that has been opened, and the way to leave it at its path. -/
structure Opened (σ : Type) where
  backend : Backend σ
  store : σ
  keep : σ → Action Unit

/-- Makes a request of the service's store. What it did stays, whether or not it fails. -/
def Opened.serve {σ α : Type} (o : Opened σ) (config : Config) (request : Gateway σ → Request σ α) :
    Action α := do
  let (outcome, store) := (request (Gateway.configured o.backend config)).run.run o.store
  o.keep store
  demand .request outcome

def openTable (path : String) (config : Config) : Action (Opened EntityTable) := do
  let t ← openEntities path config.limits.maxBatchOperations
  return ⟨EntityTable.backend, t, keepEntities path⟩

def openDocuments (path : String) : Action (Opened DocumentStore) := do
  return ⟨DocumentStore.backend, ← openCollections path, keepCollections path⟩

/-- Opens the store of the service, then prepares the request and makes it. -/
def withService {α β : Type} (directory : String) (prepare : Action β)
    (request : {σ : Type} → β → Gateway σ → Request σ α) : Action α := do
  let config ← loadConfig directory
  let path := config.storePath directory
  match config.store.kind with
  | .table => do
    let opened ← openTable path config
    let prepared ← prepare
    opened.serve config (request prepared)
  | .document => do
    let opened ← openDocuments path
    let prepared ← prepare
    opened.serve config (request prepared)

def identifiers (text : String) : List String := Text.commaList text

/-- The configuration of a new service. Documents have no partitions. -/
def newConfig (service : String) (kind : StoreKind) (partition : Option String) : Config :=
  let config := Config.initial service kind
  match config.store with
  | .table path _ upsert => { config with store := .table path partition upsert }
  | .document _ => config

def createStore (config : Config) (path : String) : Action Unit := do
  match config.store.kind with
  | .table => keepEntities path (← openEntities path config.limits.maxBatchOperations)
  | .document => keepCollections path (← openCollections path)

def initialise (t : Terminal) (json : Bool) (directory service : String) (kind : StoreKind)
    (partition : Option String) : Action String := do
  if ((← get).find? (configPath directory)).isSome then throw (.alreadyInitialised directory)
  let config := newConfig service kind partition
  let path := config.storePath directory
  createStore config path
  modify fun w => w.put (configPath directory) (.text config.toText)
  if json then
    return Json.write (.object [("backend", .string kind.name), ("service", .string service),
      ("store", .string path), ("success", .bool true)]) ++ "\n"
  else
    return t.success ("Initialized service '" ++ service ++ "'") ++ t.named "backend" kind.name ++
      t.named "store" path

/-- The native queries for a filter. A document store has one, with its ordering. -/
def compiled (kind : StoreKind) (table filter : String) (params : Params)
    (orderBy : Option String) : Except CompileFault (List CompiledFilter) :=
  match kind with
  | .document => do
    let compiler : DocumentQuery.Compiler := ⟨table, FieldMap.openFor .document, params⟩
    let found ← compiler.compileText filter
    return [⟨DocumentQuery.statement table found none orderBy,
      (found.map CompiledFilter.params).getD []⟩]
  | .table => do
    match ← (Filter.parse params filter).mapError CompileFault.filter with
    | none => return []
    | some f =>
      (Entity.Compiler.new (FieldMap.openFor .table) params Entity.maxIds).compileChunks f

def boundValue (p : BoundParam) : Value :=
  .object [("placeholder", .string p.placeholder), ("value", p.value)]

def compiledValue (c : CompiledFilter) : Value :=
  .object [("native", .string c.text), ("params", .array (c.params.map boundValue))]

def compiledText (t : Terminal) (c : CompiledFilter) : String :=
  t.item c.text ++
    String.join (c.params.map fun p => t.named p.placeholder (Json.write p.value))

def compile (t : Terminal) (json : Bool) (kind : StoreKind) (table filter : String)
    (params : List String) (orderBy : Option String) : Action String := do
  let params ← demand id (parameters params)
  let queries ← demand (fun f => .request (.compile f)) (compiled kind table filter params orderBy)
  if json then return Json.writeIndented 0 (.array (queries.map compiledValue)) ++ "\n"
  else return t.title (kind.name ++ " query") ++ String.join (queries.map (compiledText t))

def shown (t : Terminal) (json : Bool) (e : Envelope) : String :=
  if json then Json.writeIndented 0 e.toValue ++ "\n" else t.envelope e

def withParameters (options : RequestOptions) (params : List String) : Action RequestOptions := do
  return { options with params := ← demand id (parameters params) }

def query (directory table : String) (ids : Option String) (params : List String)
    (options : RequestOptions) : Action Envelope :=
  withService directory (withParameters options params) fun options g =>
    match ids with
    | some ids => do return (← g.retrieveIds table (identifiers ids) options).envelope
    | none => g.retrieve table options

def write (directory table : String) (verb : Verb) (input : String) (options : RequestOptions) :
    Action Envelope :=
  withService directory (readInput input) fun records g => do
    return (← g.mutateRecords table verb records options).envelope

def delete (directory table : String) (ids : Option String) (params : List String)
    (options : RequestOptions) : Action Envelope :=
  withService directory (withParameters options params) fun options g => do
    let result ← match ids with
      | some ids => g.mutateIds table .delete (identifiers ids) none options
      | none => g.mutateFilter table .delete none options
    return result.envelope

/-- What a command prints when it succeeds. -/
def Command.run (t : Terminal) (json : Bool) (directory : String) : Command → Action String
  | .initialise service kind partition =>
    CommandLine.initialise t json directory service kind partition
  | .compile kind table filter params orderBy =>
    CommandLine.compile t json kind table filter params orderBy
  | .query table ids params options => do
    return shown t json (← CommandLine.query directory table ids params options)
  | .write table verb input options => do
    return shown t json (← CommandLine.write directory table verb input options)
  | .delete table ids params options => do
    return shown t json (← CommandLine.delete directory table ids params options)

/-- A failed batch also shows its items, on a line of its own or in one object with the message. -/
def failureText (t : Terminal) (json : Bool) (f : CommandFault) : String :=
  match f.context?, json with
  | some context, true =>
    Json.write (.object [("context", context), ("error", .string (f.chain.headD ""))]) ++ "\n"
  | some context, false => t.failure f.message ++ Json.write context ++ "\n"
  | none, _ => t.failure f.message

/-- The service is that of the working directory unless the invocation names another. -/
def Invocation.run (t : Terminal) (i : Invocation) (w : Workspace) : Report × Workspace :=
  let directory := i.project.getD w.directory
  match (i.command.run t i.json directory).run.run w with
  | (.ok output, w) => (⟨0, output, ""⟩, w)
  | (.error f, w) => (⟨1, "", failureText t i.json f⟩, w)

end StoreGateway.CommandLine

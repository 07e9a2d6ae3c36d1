import StoreGateway.Compile.Entity

/-! The configuration of a service: its name, its store and its limits. -/

namespace StoreGateway

structure Limits where
  maxRecords : Nat
  maxIdsPerFilter : Nat
  maxBatchOperations : Nat
  deriving DecidableEq, Repr

def Limits.default : Limits := ⟨1000, Entity.maxIds, 100⟩

inductive StoreConfig where
  | table (path : String) (defaultPartition : Option String) (upsertAllowed : Bool)
  | document (path : String)
  deriving DecidableEq, Repr

namespace StoreConfig

def kind : StoreConfig → StoreKind
  | table .. => .table
  | document _ => .document

def path : StoreConfig → String
  | table path _ _ => path
  | document path => path

end StoreConfig

structure Config where
  version : String
  service : String
  store : StoreConfig
  limits : Limits
  deriving DecidableEq, Repr

inductive InvalidConfig where
  | emptyService
  | idsPerFilter
  | batchOperations
  deriving DecidableEq, Repr

def InvalidConfig.message : InvalidConfig → String
  | emptyService => "service name cannot be empty"
  | idsPerFilter => "max_ids_per_filter must be between 1 and " ++ toString Entity.maxIds
  | batchOperations => "max_batch_operations must be positive"

namespace Config

def fileName : String := "dualstore.config.json"

/-- Checks the service's name first, then the limits. -/
def validate (c : Config) : Except InvalidConfig Unit :=
  if Text.trim c.service = "" then .error .emptyService
  else if c.limits.maxIdsPerFilter = 0 ∨ Entity.maxIds < c.limits.maxIdsPerFilter then
    .error .idsPerFilter
  else if c.limits.maxBatchOperations = 0 then .error .batchOperations
  else .ok ()

/-- A path seen from a directory. An absolute path stays as it is. -/
def joinPath (directory path : String) : String :=
  if path.toList.head? = some '/' then path
  else if directory = "" ∨ directory.toList.getLast? = some '/' then directory ++ path
  else directory ++ "/" ++ path

def storePath (c : Config) (directory : String) : String := joinPath directory c.store.path

/-- What a new service starts with. -/
def initial (service : String) : StoreKind → Config
  | .table => ⟨"0.1.0", service, .table "./data/tables.db" none false, .default⟩
  | .document => ⟨"0.1.0", service, .document "./data/documents", .default⟩

end Config

end StoreGateway

/-! Why a store refuses or fails a call. -/

namespace StoreGateway

inductive StoreFault where
  | notFound (what : String)
  | conflict (what : String)
  | rejected (why : String)
  /-- The operation at an index made an atomic batch fail. -/
  | batch (index : Nat) (source : StoreFault)
  | unsupported (what : String)
  | storage (what : String)
  | io (what : String)
  | json (what : String)
  | database (what : String)
  | pool (what : String)
  deriving DecidableEq, Repr

def StoreFault.message : StoreFault → String
  | notFound what => what
  | conflict what => "Conflict: " ++ what
  | rejected why => "Request rejected: " ++ why
  | batch index source => "Batch operation " ++ toString index ++ " failed: " ++ source.message
  | unsupported what => "Operation not supported: " ++ what
  | storage what => "Storage error: " ++ what
  | io what => "IO error: " ++ what
  | json what => "JSON error: " ++ what
  | database what => "SQLite error: " ++ what
  | pool what => "Connection pool error: " ++ what

/-- The messages of what lies behind a fault, outermost first. -/
def StoreFault.sources : StoreFault → List String
  | batch _ source => source.message :: source.sources
  | io what | json what | database what | pool what => [what]
  | _ => []

def missingText (key : String) : String := "Record with identifier '" ++ key ++ "' not found."

/-- What the document store itself reports. -/
inductive DocumentFault where
  | notFound (id : String)
  | invalidCollection (reason : String)
  | invalidId (id : String)
  | query (reason : String)
  | duplicate (id : String)
  | io (what : String)
  | json (what : String)
  deriving DecidableEq, Repr

namespace DocumentFault

def message : DocumentFault → String
  | notFound id => "Document not found: " ++ id
  | invalidCollection reason => "Invalid collection name: " ++ reason
  | invalidId id => "Invalid document id: " ++ id
  | query reason => "Query error: " ++ reason
  | duplicate id => "Document ID already exists: " ++ id
  | io what => "IO error: " ++ what
  | json what => "JSON error: " ++ what

/-- How the fault looks to callers that know no documents. -/
def toStoreFault : DocumentFault → StoreFault
  | notFound id => .notFound (missingText id)
  | duplicate id => .conflict ("Document ID already exists: " ++ id)
  | io what => .io what
  | json what => .json what
  | fault => .rejected fault.message

end DocumentFault

end StoreGateway

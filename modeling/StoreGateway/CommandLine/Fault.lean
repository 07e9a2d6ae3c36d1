import StoreGateway.Config.Json
import StoreGateway.RequestError

/-! Why a command fails, and how it says so. -/

namespace StoreGateway.CommandLine

inductive CommandFault where
  | request (e : RequestError)
  /-- The store of a service can not be opened. -/
  | store (f : StoreFault)
  | config (directory : String) (e : ConfigError)
  | alreadyInitialised (directory : String)
  | badParameter (text : String)
  | noInput (path : String)
  | badInput (f : Json.ReadFault)
  | resourceNotArray
  | inputNotRecords
  | notRecord (v : Value)
  deriving Repr

namespace CommandFault

/-- The message, and what lies behind it. -/
def chain : CommandFault → List String
  | request e => e.message :: e.sources
  | store f => f.message :: f.sources
  | config directory e =>
    ("loading service config from " ++ directory) :: e.message :: e.sources
  | alreadyInitialised directory => ["Service already initialized in " ++ directory]
  | badParameter text => ["Invalid parameter '" ++ text ++ "', expected NAME=VALUE"]
  | noInput path => ["reading " ++ path, "No such file or directory (os error 2)"]
  | badInput f => [f.message]
  | resourceNotArray => ["'resource' must be an array"]
  | inputNotRecords => ["Input must be a JSON object or array"]
  | notRecord v => ["Expected a JSON object, found " ++ Json.write v]

def message (f : CommandFault) : String := ": ".intercalate f.chain

/-- The items of a batch that failed. -/
def context? : CommandFault → Option Value
  | request e => e.context?
  | _ => none

end CommandFault

end StoreGateway.CommandLine

import StoreGateway.Batch.Result
import StoreGateway.Filter.Fault
import StoreGateway.Store.Fault
import StoreGateway.Store.Key

/-! Why a request fails, and the status that an answer to it has. -/

namespace StoreGateway

/-- Requests that ask for something impossible. -/
inductive BadRequest where
  | noRecords
  | noRecord
  | noIds
  | deleteWithoutFilter
  | unknownCombiner (text : String)
  | incompleteServerFilter
  deriving DecidableEq, Repr

def BadRequest.message : BadRequest → String
  | noRecords => "No records in request."
  | noRecord => "No record in request."
  | noIds => "No record ids in request."
  | deleteWithoutFilter => "Filter for delete request can not be empty."
  | unknownCombiner text => "Invalid server filter combiner '" ++ text ++ "'."
  | incompleteServerFilter => "Invalid server filter: name and operator are required."

inductive MissingIdentifier where
  | key (fault : KeyFault)
  | emptyId
  | item (index : Nat)
  deriving DecidableEq, Repr

def MissingIdentifier.message : MissingIdentifier → String
  | key fault => fault.message
  | emptyId => "Empty identifier in request."
  | item index => "no identifier for item " ++ toString index

inductive RequestError where
  | compile (fault : CompileFault)
  | conflictingPolicies
  | badRequest (what : BadRequest)
  | missingIdentifier (what : MissingIdentifier)
  | notFound (what : String)
  | store (fault : StoreFault)
  /-- An item failed; the items up to it are told apart by index, as in a result. -/
  | batch (message : String) (failed : List Nat) (resource : List Value) (cause : RequestError)
  deriving Repr

namespace RequestError

def ofStore : StoreFault → RequestError
  | .notFound what => .notFound what
  | fault => .store fault

def message : RequestError → String
  | compile fault => fault.message
  | conflictingPolicies => "Rollback and continue can not both be requested for a batch"
  | badRequest what => "Bad request: " ++ what.message
  | missingIdentifier what => "Missing identifier: " ++ what.message
  | notFound what => what
  | store fault => "Backend fault: " ++ fault.message
  | batch text _ _ _ => "Batch Error: " ++ text

def status : RequestError → Nat
  | notFound _ => 404
  | store _ => 500
  | _ => 400

/-- What made a batch fail, in the innermost batch. -/
def root : RequestError → RequestError
  | batch _ _ _ cause => cause.root
  | e => e

/-- The failed indices and the outcomes of a batch. -/
def context? : RequestError → Option Value
  | batch _ failed resource _ =>
    some (.object [("error", Envelope.indices failed), ("resource", .array resource)])
  | _ => none

/-- The messages of what lies behind the error, outermost first. -/
def sources : RequestError → List String
  | store fault => fault.message :: fault.sources
  | batch _ _ _ cause => cause.message :: cause.sources
  | _ => []

end RequestError

end StoreGateway

import StoreGateway.Json.Writer
import StoreGateway.Kind

/-! Keys of single records. -/

namespace StoreGateway

inductive RecordKey where
  | entity (partition row : String)
  | document (id : String)
  deriving DecidableEq, Repr

namespace RecordKey

def text : RecordKey → String
  | entity partition row => partition ++ "/" ++ row
  | document id => id

def partition? : RecordKey → Option String
  | entity partition _ => some partition
  | document _ => none

def row? : RecordKey → Option String
  | entity _ row => some row
  | document _ => none

/-- The identifier fields alone. -/
def toRecord : RecordKey → Record
  | entity partition row => [(partitionKey, .string partition), (rowKey, .string row)]
  | document id => [(documentId, .string id)]

end RecordKey

inductive KeyFault where
  | noPartition
  | noRow
  | noId
  deriving DecidableEq, Repr

def KeyFault.message : KeyFault → String
  | noPartition => "No valid partition key found in request."
  | noRow => "No valid row key found in request."
  | noId => "No " ++ documentId ++ " field found in record."

/-- Keys are strings; numbers serve as their text. -/
def Value.keyText? : Value → Option String
  | string s => some s
  | int i => some (Json.write (.int i))
  | float x => some (Json.write (.float x))
  | _ => none

namespace Record

/-- The key text of a field, unless it is empty. -/
def keyText? (r : Record) (field : String) : Option String :=
  ((r.get? field).bind Value.keyText?).filter (· ≠ "")

end Record

namespace StoreKind

/-- The key of a record. A partition key from outside goes before the record's own. -/
def keyOf (kind : StoreKind) (r : Record) (partition : Option String) : Except KeyFault RecordKey :=
  match kind with
  | table =>
    match (partition.or ((r.get? partitionKey).bind Value.keyText?)).filter (· ≠ "") with
    | none => .error .noPartition
    | some p =>
      match r.keyText? rowKey with
      | none => .error .noRow
      | some row => .ok (.entity p row)
  | document =>
    match r.keyText? documentId with
    | none => .error .noId
    | some id => .ok (.document id)

end StoreKind

end StoreGateway

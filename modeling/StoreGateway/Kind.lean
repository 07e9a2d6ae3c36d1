import StoreGateway.Text.LowerCase

/-! The two kinds of store, and the fields that identify their records. -/

namespace StoreGateway

inductive StoreKind where
  | table
  | document
  deriving DecidableEq, Repr

def partitionKey : String := "PartitionKey"
def rowKey : String := "RowKey"
def timestamp : String := "Timestamp"
def documentId : String := "id"

namespace StoreKind

def name : StoreKind → String
  | table => "table"
  | document => "document"

def ofName? (text : String) : Option StoreKind :=
  match Text.lowerCase text with
  | "table" | "entity" | "azure_table" => some table
  | "document" | "doc" | "documentdb" => some document
  | _ => none

/-- Every record shown to a caller has these. -/
def identifiers : StoreKind → List String
  | table => [partitionKey, rowKey]
  | document => [documentId]

end StoreKind

end StoreGateway

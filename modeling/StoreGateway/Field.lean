import StoreGateway.Filter.Fault
import StoreGateway.Kind
import StoreGateway.Text.Ascii

/-! Fields of a table, their types, and looking them up. -/

namespace StoreGateway

inductive FieldType where
  | string
  | integer
  | number
  | boolean
  /-- Values keep the type they were written with. -/
  | any
  deriving DecidableEq, Repr

namespace FieldType

def name : FieldType → String
  | string => "string"
  | integer => "integer"
  | number => "number"
  | boolean => "boolean"
  | any => "any"

def ofName (text : String) : FieldType :=
  match Text.lowerCase text with
  | "string" | "text" | "varchar" | "id" => string
  | "int" | "integer" | "int32" | "int64" | "bigint" => integer
  | "number" | "float" | "double" | "decimal" => number
  | "bool" | "boolean" => boolean
  | _ => any

end FieldType

structure Field where
  name : String
  type : FieldType
  isIdentifier : Bool
  required : Bool
  deriving DecidableEq, Repr

namespace Field

def identifier (name : String) : Field := ⟨name, .string, true, true⟩

def undeclared (name : String) : Field := ⟨name, .any, false, false⟩

end Field

/-- The declared fields of a table. A table that is open to others takes them as untyped. -/
structure FieldMap where
  fields : List Field
  isOpen : Bool
  deriving DecidableEq, Repr

namespace FieldMap

/-- Declares the identifiers of a kind of store that are not declared yet. -/
def withIdentifiers (map : FieldMap) (kind : StoreKind) : FieldMap :=
  { map with
    fields := kind.identifiers.foldl
      (fun fields name =>
        if fields.any (·.name == name) then fields else fields ++ [Field.identifier name])
      map.fields }

def openFor (kind : StoreKind) : FieldMap := FieldMap.withIdentifiers ⟨[], true⟩ kind

/-- A name that differs in ASCII case only serves when none is the same. -/
def get? (map : FieldMap) (name : String) : Option Field :=
  (map.fields.find? (·.name == name)).or
    (map.fields.find? fun field => Text.asciiLower field.name == Text.asciiLower name)

def resolve (map : FieldMap) (name : String) : Except FilterFault Field :=
  match map.get? name with
  | some field => .ok field
  | none => if map.isOpen then .ok (Field.undeclared name) else .error (.unknownField name)

end FieldMap

end StoreGateway

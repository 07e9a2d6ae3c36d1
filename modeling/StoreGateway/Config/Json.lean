import StoreGateway.Config.Basic
import StoreGateway.Json.Reader

/-!
The configuration as JSON. A structure is an object, whose members may come in any order with others
among them, or an array of its fields in their order. No field may be given twice. Other members are
passed over unread, but a store is read whole, since its type may come last.
-/

namespace StoreGateway

inductive ConfigFault where
  | text (fault : Json.ReadFault)
  | wrongType (expected : String)
  | missingField (name : String)
  | repeatedField (name : String)
  | tooManyFields
  deriving DecidableEq, Repr

def ConfigFault.message : ConfigFault → String
  | text fault => fault.message
  | wrongType expected => "invalid type, expected " ++ expected
  | missingField name => "missing field " ++ name
  | repeatedField name => "duplicate field " ++ name
  | tooManyFields => "too many fields"

namespace Config

abbrev Fields := List (String × Value)

def membersNamed (members : List (String × Value)) : List String → Except ConfigFault Fields
  | [] => .ok []
  | name :: rest =>
    match members.filter (·.1 == name) with
    | [] => membersNamed members rest
    | [member] => do return member :: (← membersNamed members rest)
    | _ => .error (.repeatedField name)

def itemsNamed (items : List Value) (names : List String) : Except ConfigFault Fields :=
  if names.length < items.length then .error .tooManyFields else .ok (names.zip items)

/-- The fields of a structure that has the given ones. -/
def fieldsOf (expected : String) (names : List String) : Value → Except ConfigFault Fields
  | .object members => membersNamed members names
  | .array items => itemsNamed items names
  | _ => .error (.wrongType expected)

def required (fields : Fields) (name : String) : Except ConfigFault Value :=
  match fields.lookup name with
  | some v => .ok v
  | none => .error (.missingField name)

def text : Value → Except ConfigFault String
  | .string s => .ok s
  | _ => .error (.wrongType "a string")

def natural : Value → Except ConfigFault Nat
  | .int i => if 0 ≤ i then .ok i.toNat else .error (.wrongType "a natural number")
  | _ => .error (.wrongType "a natural number")

def naturalOr (default : Nat) (fields : Fields) (name : String) : Except ConfigFault Nat :=
  match fields.lookup name with
  | some v => natural v
  | none => .ok default

def optionalText (fields : Fields) (name : String) : Except ConfigFault (Option String) :=
  match fields.lookup name with
  | none | some .null => .ok none
  | some v => (text v).map some

def flag (fields : Fields) (name : String) : Except ConfigFault Bool :=
  match fields.lookup name with
  | none => .ok false
  | some (.bool b) => .ok b
  | some _ => .error (.wrongType "a boolean")

def serviceFields : List String := ["name"]

def limitFields : List String := ["max_records", "max_ids_per_filter", "max_batch_operations"]

def allOf (names : List String) : Json.Wanted := .fields (names.map fun name => (name, .all))

def configFields : List (String × Json.Wanted) :=
  [("version", .all), ("service", allOf serviceFields), ("backend", .all),
    ("limits", allOf limitFields)]

def serviceOf (v : Value) : Except ConfigFault String := do
  text (← required (← fieldsOf "a service" serviceFields v) "name")

def limitsOf (v : Value) : Except ConfigFault Limits := do
  let fields ← fieldsOf "limits" limitFields v
  return ⟨← naturalOr Limits.default.maxRecords fields "max_records",
    ← naturalOr Limits.default.maxIdsPerFilter fields "max_ids_per_filter",
    ← naturalOr Limits.default.maxBatchOperations fields "max_batch_operations"⟩

/-- The type that a store names, and the rest of it. -/
def typeOf : Value → Except ConfigFault (String × Value)
  | .object members => do
    let fields ← membersNamed members ["type"]
    return (← text (← required fields "type"), .object members)
  | .array (first :: rest) => do return (← text first, .array rest)
  | _ => .error (.missingField "type")

def storeOf (v : Value) : Except ConfigFault StoreConfig := do
  match ← typeOf v with
  | ("table", rest) =>
    let fields ← fieldsOf "a store" ["path", "default_partition_key", "upsert_allowed"] rest
    return .table (← text (← required fields "path"))
      (← optionalText fields "default_partition_key") (← flag fields "upsert_allowed")
  | ("document", rest) =>
    let fields ← fieldsOf "a store" ["path"] rest
    return .document (← text (← required fields "path"))
  | _ => throw (.wrongType "table or document")

def ofValue (v : Value) : Except ConfigFault Config := do
  let fields ← fieldsOf "a configuration" (configFields.map Prod.fst) v
  let version ← text (← required fields "version")
  let service ← serviceOf (← required fields "service")
  let store ← storeOf (← required fields "backend")
  let limits ← match fields.lookup "limits" with
    | some v => limitsOf v
    | none => pure .default
  return ⟨version, service, store, limits⟩

def ofText (content : String) : Except ConfigFault Config :=
  match Json.readAsWritten (.fields configFields) content with
  | .ok v => ofValue v
  | .error fault => .error (.text fault)

def optional : Option String → Value
  | some s => .string s
  | none => .null

def storeValue : StoreConfig → Value
  | .table path partition upsert =>
    .object [("type", .string "table"), ("path", .string path),
      ("default_partition_key", optional partition), ("upsert_allowed", .bool upsert)]
  | .document path => .object [("type", .string "document"), ("path", .string path)]

/-- Every field, in the order of the structure. -/
def toValue (c : Config) : Value :=
  .object [("version", .string c.version),
    ("service", .object [("name", .string c.service)]),
    ("backend", storeValue c.store),
    ("limits", .object [("max_records", .int c.limits.maxRecords),
      ("max_ids_per_filter", .int c.limits.maxIdsPerFilter),
      ("max_batch_operations", .int c.limits.maxBatchOperations)])]

def toText (c : Config) : String := Json.writeIndented 0 c.toValue

end Config

/-- Why a configuration file gives no configuration. -/
inductive ConfigError where
  | notFound (path : String)
  | unreadable (fault : ConfigFault)
  | invalid (what : InvalidConfig)
  deriving DecidableEq, Repr

namespace ConfigError

def message : ConfigError → String
  | notFound path => "Config file not found: " ++ path
  | unreadable fault => "Invalid config format: " ++ fault.message
  | invalid what => "Invalid config value: " ++ what.message

/-- The messages of what lies behind the error. -/
def sources : ConfigError → List String
  | unreadable fault => [fault.message]
  | _ => []

end ConfigError

/-- The configuration in a file, if there is a file and what it says is valid. -/
def Config.load (path : String) (content : Option String) : Except ConfigError Config :=
  match content with
  | none => .error (.notFound path)
  | some text =>
    match Config.ofText text with
    | .error fault => .error (.unreadable fault)
    | .ok config =>
      match config.validate with
      | .error what => .error (.invalid what)
      | .ok () => .ok config

end StoreGateway

import StoreGateway.Field
import StoreGateway.Filter.Literal
import StoreGateway.Filter.Params
import StoreGateway.Json.Writer
import StoreGateway.Text.Alphanumeric
import StoreGateway.Text.Blank

/-! Giving operands values of their field's type, and names to the values that are bound. -/

namespace StoreGateway

/-- Required fields refuse text that does not read as their type; others keep it. -/
def mismatch (field : Field) (text : String) (expected : Expected) : Except ValueFault Value :=
  if field.required then .error (.mismatch text expected) else .ok (.string text)

def boolOfText? (text : String) : Option Bool :=
  match Text.lowerCase text with
  | "true" | "1" => some true
  | "false" | "0" => some false
  | _ => none

/-- Brings a value in line with the type of its field. -/
def conform (field : Field) (v : Value) : Except ValueFault Value :=
  match field.type, v with
  | .integer, .string s =>
    match Decimal.readInt64? (Text.trim s) with
    | some i => .ok (.int i)
    | none => mismatch field s .integer
  | .integer, .bool b =>
    if field.required then mismatch field (Json.write (.bool b)) .integer else .ok v
  | .number, .string s =>
    match Decimal.readBinary64? (Text.trim s) with
    | some x => .ok (.float x)
    | none => mismatch field s .number
  | .boolean, .string s =>
    match boolOfText? s with
    | some b => .ok (.bool b)
    | none => mismatch field s .boolean
  | .string, .int i => .ok (.string (Json.write (.int i)))
  | .string, .float x => .ok (.string (Json.write (.float x)))
  | .string, .bool b => .ok (.string (Json.write (.bool b)))
  | _, v => .ok v

/-- An operand as it goes into a native query. -/
inductive Coerced where
  | value (v : Value)
  /-- Native syntax, passed on as it is. -/
  | native (raw : String)
  deriving Repr

/-- The value of a literal or parameter before it is brought in line with a field. -/
def Operand.value? (params : Params) (field : String) : Operand → Except CompileFault Value
  | literal raw => .ok (Literal.infer raw)
  | param name =>
    match params.lookup? name with
    | some v => .ok v
    | none => .error (.value field (.unbound name))
  | list _ => .error (.filter (.listOutsideIn field))
  | _ => .error (.value field .missing)

def Operand.coerce (params : Params) (field : Field) : Operand → Except CompileFault Coerced
  | call raw => .ok (.native raw)
  | operand => do
    let v ← operand.value? params field.name
    match conform field v with
    | .ok conformed => return .value conformed
    | .error fault => throw (.value field.name fault)

/-- How many placeholders have been given out for each stem. -/
abbrev Placeholders := List (String × Nat)

namespace Placeholders

/-- Characters that are no letter, digit or underscore become underscores. -/
def stem (field : String) : String :=
  String.ofList (field.toList.map fun c => if Text.isAlphanumeric c || c == '_' then c else '_')

def count (given : Placeholders) (stem : String) : Nat := (given.lookup stem).getD 0

def increment : Placeholders → String → Placeholders
  | [], stem => [(stem, 1)]
  | (other, n) :: rest, stem =>
    if other = stem then (other, n + 1) :: rest else (other, n) :: increment rest stem

/-- The next placeholder for a field; they count from one for each stem. -/
def next (given : Placeholders) (field : String) : String × Placeholders :=
  let s := stem field
  ("@" ++ s ++ toString (given.count s + 1), given.increment s)

end Placeholders

end StoreGateway

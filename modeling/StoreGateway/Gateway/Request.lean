import StoreGateway.Batch.Selection
import StoreGateway.Dialect
import StoreGateway.Filter.Params
import StoreGateway.RequestError
import StoreGateway.Text.LowerCase

/-! What callers ask for, and the conditions that a service adds to every filter. -/

namespace StoreGateway

structure RequestOptions where
  /-- A star, a list of fields, or nothing for the identifiers alone. -/
  fields : Option String
  filter : Option String
  params : Params
  limit : Option Nat
  orderBy : Option String
  rollback : Bool
  continueOnError : Bool
  partition : Option String
  includeCount : Bool

namespace RequestOptions

def none : RequestOptions :=
  ⟨Option.none, Option.none, [], Option.none, Option.none, false, false, Option.none, false⟩

def selection (o : RequestOptions) (default : Selection) : Selection :=
  match o.fields with
  | some fields => Selection.ofText (some fields)
  | Option.none => default

def filterText (o : RequestOptions) : Option String := (o.filter.map Text.trim).filter (· ≠ "")

/-- The partition, unless it is empty. -/
def partitionText (o : RequestOptions) : Option String := o.partition.filter (· ≠ "")

end RequestOptions

/-- One condition that a service insists on. -/
structure ServerFilter where
  name : String
  operator : String
  value : Value
  deriving Repr

structure ServerFilters where
  combiner : String
  filters : List ServerFilter
  deriving Repr

namespace ServerFilters

def joiner (combiner : String) : Except RequestError String :=
  match Text.lowerCaseInWords (Text.trim combiner) with
  | "and" => .ok " and "
  | "or" => .ok " or "
  | other => .error (.badRequest (.unknownCombiner other))

def conditionText (f : ServerFilter) : Except RequestError String :=
  if Text.trim f.name = "" ∨ Text.trim f.operator = "" then
    .error (.badRequest .incompleteServerFilter)
  else .ok (Text.trim f.name ++ " " ++ Text.trim f.operator ++ " " ++ Literal.text f.value)

/-- The conditions as filter text, if there are any. -/
def toText (s : ServerFilters) : Except RequestError (Option String) := do
  let joiner ← joiner s.combiner
  if s.filters = [] then return none
  return some (joiner.intercalate (← s.filters.mapM conditionText))

end ServerFilters

end StoreGateway

import StoreGateway.Filter.Literal
import StoreGateway.Filter.Params
import StoreGateway.Filter.Basic
import StoreGateway.Json.Writer

/-!
Whether a record satisfies a filter. A field that is missing or null satisfies no comparison with a
value. Chains are evaluated from left to right, no further than their outcome needs.
-/

namespace StoreGateway

inductive EvalFault where
  | emptyNegation
  | unbound (param : String)
  | unknownCall (raw : String)
  deriving DecidableEq, Repr

def EvalFault.message : EvalFault → String
  | emptyNegation => "NOT requires an operand"
  | unbound param => "no value bound for parameter '" ++ param ++ "'"
  | unknownCall raw => "function '" ++ raw ++ "' is not supported by this store"

namespace Text

/-- What follows some text at the front. -/
def after? : (front cs : List Char) → Option (List Char)
  | [], cs => some cs
  | f :: front, c :: cs => if f = c then after? front cs else none
  | _ :: _, [] => none

end Text

/-- A field reference without the collection that qualifies it. -/
def unqualify (qualifier : Option String) (field : String) : String :=
  match qualifier with
  | none => field
  | some q =>
    match Text.after? (q.toList ++ ['.']) field.toList with
    | some rest => String.ofList rest
    | none => field

mutual

/-- The value of an operand. A list has an array as its value. -/
def Operand.evaluate (params : Params) : Operand → Except EvalFault Value
  | .absent => .ok .null
  | .literal raw => .ok (Literal.infer raw)
  | .param name =>
    match params.lookup? name with
    | some v => .ok v
    | none => .error (.unbound name)
  | .call raw => .error (.unknownCall raw)
  | .list items => do return .array (← Operand.evaluateAll params items)

def Operand.evaluateAll (params : Params) : List Operand → Except EvalFault (List Value)
  | [] => .ok []
  | o :: rest => do
    let v ← o.evaluate params
    return v :: (← Operand.evaluateAll params rest)

end

def Comparator.accepts : Comparator → Ordering → Bool
  | eq, o => o == .eq
  | ne, o => o != .eq
  | gt, o => o == .gt
  | ge, o => o != .lt
  | lt, o => o == .lt
  | le, o => o != .gt

/-- Comparing with null asks whether there is a value; equality holds between values of any kind. -/
def Comparator.holds (c : Comparator) (actual : Option Value) (expected : Value) : Bool :=
  match c, expected, actual with
  | eq, .null, actual => actual.isNone
  | ne, .null, actual => actual.isSome
  | _, _, none => false
  | eq, expected, some a => a.equals expected
  | ne, expected, some a => !a.equals expected
  | c, expected, some a =>
    match a.compare? expected with
    | some order => c.accepts order
    | none => false

/-- Text with a wildcard at its end matches what starts with the text before it. -/
def likeHolds (text pattern : String) : Bool :=
  match pattern.toList.getLast? with
  | some '%' => (Text.after? pattern.toList.dropLast text.toList).isSome
  | _ => text == pattern

def Relation.holds (r : Relation) (actual : Option Value) (expected : Value) : Bool :=
  match r, actual, expected with
  | isNull, actual, _ => actual.isNone
  | isNotNull, actual, _ => actual.isSome
  | compare c, actual, expected => c.holds actual expected
  | oneOf, some a, .array vs => vs.any a.equals
  | like, some (.string text), .string pattern => likeHolds text pattern
  | _, _, _ => false

def Record.present? (r : Record) (field : String) : Option Value :=
  (r.get? field).filter fun v => !v.isNull

def Comparison.holds (c : Comparison) (params : Params) (qualifier : Option String) (r : Record) :
    Except EvalFault Bool := do
  let expected ← c.operand.evaluate params
  return c.relation.holds (r.present? (unqualify qualifier c.field)) expected != c.negated

namespace Filter

mutual

/-- Whether a record satisfies the filter, with its fields qualified or not. -/
def holds (params : Params) (qualifier : Option String) (r : Record) :
    Filter → Except EvalFault Bool
  | .test c => c.holds params qualifier r
  | .combine .and children => allHold params qualifier r children
  | .combine .or children => anyHolds params qualifier r children
  | .combine .not [] => .error .emptyNegation
  | .combine .not (child :: _) => do return !(← holds params qualifier r child)

def allHold (params : Params) (qualifier : Option String) (r : Record) :
    List Filter → Except EvalFault Bool
  | [] => .ok true
  | f :: rest => do
    if ← holds params qualifier r f then allHold params qualifier r rest else return false

def anyHolds (params : Params) (qualifier : Option String) (r : Record) :
    List Filter → Except EvalFault Bool
  | [] => .ok false
  | f :: rest => do
    if ← holds params qualifier r f then return true else anyHolds params qualifier r rest

end

end Filter

end StoreGateway

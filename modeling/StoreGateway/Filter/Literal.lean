import StoreGateway.Json.Value
import StoreGateway.Number.Decimal
import StoreGateway.Text.Ascii

/-! The values that literals stand for. -/

namespace StoreGateway.Literal

def isQuote (c : Char) : Bool := c == '\'' || c == '"'

/-- Reads each doubled quote as one. -/
def undouble (quote : Char) : List Char → List Char
  | [] => []
  | [c] => [c]
  | c :: d :: rest =>
    if c = quote ∧ d = quote then quote :: undouble quote rest else c :: undouble quote (d :: rest)

/-- The text inside a pair of like quotes. -/
def unquote? (raw : String) : Option String :=
  match raw.toList with
  | first :: second :: rest =>
    if isQuote first ∧ (second :: rest).getLast? = some first then
      some (String.ofList (undouble first (second :: rest).dropLast))
    else none
  | _ => none

def looksNumeric (cs : List Char) : Bool :=
  cs.any Char.isDigit && cs.all fun c => c.isDigit || ".-+eE".toList.contains c

def number? (raw : String) : Option Value :=
  match Decimal.readInt64? raw with
  | some i => some (.int i)
  | none => if looksNumeric raw.toList then (Decimal.readBinary64? raw).map .float else none

/-- `true`, `false` and `null` in any case. -/
def name? (raw : String) : Option Value :=
  match Text.asciiLower raw with
  | "true" => some (.bool true)
  | "false" => some (.bool false)
  | "null" => some .null
  | _ => none

/-- Text that is neither quoted nor a number nor a name stands for itself. -/
def infer (raw : String) : Value :=
  match unquote? raw with
  | some text => .string text
  | none => ((number? raw).or (name? raw)).getD (.string raw)

def nextChar? (c : Char) : Option Char :=
  if (c.toNat + 1).isValidChar then some (Char.ofNat (c.toNat + 1)) else none

/-- Steps the first character that has a next one, and drops those before it. -/
def stepFirst? : List Char → Option (List Char)
  | [] => none
  | c :: rest =>
    match nextChar? c with
    | some next => some (next :: rest)
    | none => stepFirst? rest

def upperBound? (start : String) : Option String :=
  (stepFirst? start.toList.reverse).map fun reversed => String.ofList reversed.reverse

end StoreGateway.Literal

import StoreGateway.Json.Value
import StoreGateway.Number.Decimal

/-!
Numbers in JSON text. A whole number of 64 bits is kept. Any other number is read in two roundings:
its first digits, as many as 64 bits hold, become a float, which one multiplication or a few
divisions then scale by the power of ten. The result may differ in its last bits from the nearest
float, so a float that is written and read again may come back changed.
-/

namespace StoreGateway.Json

inductive ReadFault where
  | ended
  | malformed
  | tooDeep
  | outOfRange
  | trailing
  deriving DecidableEq, Repr

def ReadFault.message : ReadFault → String
  | ended => "the text ends too early"
  | malformed => "unexpected character"
  | tooDeep => "recursion limit exceeded"
  | outOfRange => "number out of range"
  | trailing => "trailing characters"

/-- Takes digits into a number of 64 bits up to the first that does not fit, and counts them. -/
def absorb (n : Nat) : List Char → Nat × Nat
  | [] => (n, 0)
  | c :: cs =>
    let next := n * 10 + Decimal.digitValue c
    if next ≤ maxUInt64 then
      let (m, count) := absorb next cs
      (m, count + 1)
    else (n, 0)

def tenToThe (n : Nat) : Binary64 := Binary64.ofRatio false (Nat.pow 10 n) 1

/-- Divides by a power of ten, by at most 10³⁰⁸ at a time. -/
def divideByTenTo (x : Binary64) (n : Nat) : Binary64 :=
  if n ≤ 308 then x.div (tenToThe n)
  else if x.steps = 0 then x
  else divideByTenTo (x.div (tenToThe 308)) (n - 308)
termination_by n
decreasing_by omega

/-- Scales a number of 64 bits by a power of ten. -/
def floatOfParts (negative : Bool) (digits : Nat) (exponent : Int) : Except ReadFault Binary64 :=
  let x := Binary64.ofRatio negative digits 1
  if exponent < 0 then .ok (divideByTenTo x (-exponent).toNat)
  else if exponent ≤ 308 then
    match (x.mul (tenToThe exponent.toNat)).finite? with
    | some y => .ok y
    | none => .error .outOfRange
  else if x.steps = 0 then .ok x
  else .error .outOfRange

/-- Only zero and the numbers below the signed range are floats among whole negative numbers. -/
def wholeNumber (negative : Bool) (n : Nat) : Value :=
  if !negative then .int n
  else if n = 0 ∨ Nat.pow 2 63 < n then .float (Binary64.ofRatio true n 1)
  else .int (-n)

/-- The exponent after its letter, and what follows. -/
def readExponent (cs : List Char) : Except ReadFault (Int × List Char) :=
  let (negative, digits) := Decimal.splitSign cs
  let rest := digits.dropWhile Char.isDigit
  match digits.takeWhile Char.isDigit with
  | [] => .error (if digits = [] then .ended else .malformed)
  | found =>
    let n : Int := Decimal.natOfDigits found
    .ok (if negative then -n else n, rest)

/-- The fraction after a point, and what follows. -/
def readFraction (cs : List Char) : Except ReadFault (List Char × List Char) :=
  match cs.takeWhile Char.isDigit with
  | [] => .error (if cs = [] then .ended else .malformed)
  | found => .ok (found, cs.dropWhile Char.isDigit)

/-- A number as it is written. -/
structure Numeral where
  negative : Bool
  whole : List Char
  fraction : Option (List Char)
  exponent : Option Int

/-- The number that starts the text, after a sign that has been read. -/
def readUnsigned (negative : Bool) (cs : List Char) : Except ReadFault (Numeral × List Char) := do
  let whole := cs.takeWhile Char.isDigit
  if whole = [] then throw (if cs = [] then .ended else .malformed)
  if whole.length ≠ 1 ∧ whole.head? = some '0' then throw .malformed
  let (fraction, afterFraction) ← match cs.dropWhile Char.isDigit with
    | '.' :: rest => do
      let (digits, rest) ← readFraction rest
      pure (some digits, rest)
    | rest => pure (none, rest)
  let (exponent, rest) ← match afterFraction with
    | 'e' :: rest | 'E' :: rest => do
      let (n, rest) ← readExponent rest
      pure (some n, rest)
    | rest => pure (none, rest)
  return (⟨negative, whole, fraction, exponent⟩, rest)

def readNumeral : List Char → Except ReadFault (Numeral × List Char)
  | '-' :: cs => readUnsigned true cs
  | cs => readUnsigned false cs

/-- Whole numbers that 64 bits hold stay whole. -/
def Numeral.value (n : Numeral) : Except ReadFault Value :=
  let (wholeDigits, taken) := absorb 0 n.whole
  if n.fraction = none ∧ n.exponent = none ∧ taken = n.whole.length then
    .ok (wholeNumber n.negative wholeDigits)
  else
    let (digits, fractionTaken) := absorb wholeDigits (n.fraction.getD [])
    (floatOfParts n.negative digits
      (n.exponent.getD 0 + (n.whole.length - taken : Nat) - fractionTaken)).map .float

def readNumber (cs : List Char) : Except ReadFault (Value × List Char) := do
  let (numeral, rest) ← readNumeral cs
  return (← numeral.value, rest)

/-- A float as its own text reads. -/
def reread? (x : Binary64) : Option Binary64 :=
  match readNumber x.toText.toList with
  | .ok (.float y, _) => some y
  | _ => none

/-- Arrays and objects that are read may be nested this deep. -/
def maxDepth : Nat := 127

mutual

/-- A value as its own text reads, nested at most `depth` deep: floats may change, and all else is
kept. -/
def rereadValue (depth : Nat) : Value → Except ReadFault Value
  | .float x =>
    match reread? x with
    | some y => .ok (.float y)
    | none => .error .outOfRange
  | .array items =>
    match depth with
    | 0 => .error .tooDeep
    | depth + 1 => (rereadItems depth items).map .array
  | .object members =>
    match depth with
    | 0 => .error .tooDeep
    | depth + 1 => (rereadMembers depth members).map .object
  | v => .ok v

def rereadItems (depth : Nat) : List Value → Except ReadFault (List Value)
  | [] => .ok []
  | v :: rest => do return (← rereadValue depth v) :: (← rereadItems depth rest)

def rereadMembers (depth : Nat) :
    List (String × Value) → Except ReadFault (List (String × Value))
  | [] => .ok []
  | (name, v) :: rest => do
    return (name, ← rereadValue depth v) :: (← rereadMembers depth rest)

end

def rereadRecord (r : Record) : Except ReadFault Record := rereadMembers (maxDepth - 1) r

end StoreGateway.Json

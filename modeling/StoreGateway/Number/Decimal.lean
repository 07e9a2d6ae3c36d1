import StoreGateway.Number.Binary64

/-!
Decimal numbers as text: whole numbers of 64 bits, and decimal fractions with an optional exponent,
read to the nearest binary64 number.
-/

namespace StoreGateway

def minInt64 : Int := -(Nat.pow 2 63 : Nat)
def maxInt64 : Int := (Nat.pow 2 63 : Nat) - 1
def maxUInt64 : Nat := Nat.pow 2 64 - 1

namespace Decimal

def digitValue (c : Char) : Nat := c.toNat - '0'.toNat

def natOfDigits (digits : List Char) : Nat :=
  digits.foldl (fun n c => n * 10 + digitValue c) 0

/-- The sign in front, if there is one, and the rest. -/
def splitSign : List Char → Bool × List Char
  | '-' :: rest => (true, rest)
  | '+' :: rest => (false, rest)
  | cs => (false, cs)

/-- An optional sign and digits alone, within 64 bits with a sign. -/
def readInt64? (text : String) : Option Int :=
  let (negative, digits) := splitSign text.toList
  if digits ≠ [] ∧ digits.all Char.isDigit then
    let i : Int := if negative then -(natOfDigits digits) else natOfDigits digits
    if minInt64 ≤ i ∧ i ≤ maxInt64 then some i else none
  else none

/-- An exponent after `e` or `E`; no exponent at all stands for zero. -/
def readExponent? : List Char → Option Int
  | [] => some 0
  | c :: rest =>
    let (negative, digits) := splitSign rest
    if (c = 'e' ∨ c = 'E') ∧ digits ≠ [] ∧ digits.all Char.isDigit then
      some (if negative then -(natOfDigits digits) else natOfDigits digits)
    else none

/--
The nearest number to `digits · 10^exponent`, none when it is beyond the format. Exponents far out
of range are settled without computing the power.
-/
def nearest? (negative : Bool) (digits : Nat) (exponent : Int) : Option Binary64 :=
  let length : Int := (Nat.toDigits 10 digits).length
  if digits = 0 ∨ exponent + length < -400 then some ⟨negative, 0⟩
  else if 400 < exponent + length then none
  else if 0 ≤ exponent then
    (Binary64.ofRatio negative (digits * Nat.pow 10 exponent.toNat) 1).finite?
  else (Binary64.ofRatio negative digits (Nat.pow 10 (-exponent).toNat)).finite?

/--
A sign, digits with at most one point among or beside them, and an exponent; all but one digit may
be left out. Nothing is read from text whose number the format cannot hold.
-/
def readBinary64? (text : String) : Option Binary64 :=
  let (negative, unsigned) := splitSign text.toList
  let whole := unsigned.takeWhile Char.isDigit
  let afterWhole := unsigned.dropWhile Char.isDigit
  let (fraction, rest) := match afterWhole with
    | '.' :: more => (more.takeWhile Char.isDigit, more.dropWhile Char.isDigit)
    | other => ([], other)
  if whole = [] ∧ fraction = [] then none
  else
    (readExponent? rest).bind fun exponent =>
      nearest? negative (natOfDigits (whole ++ fraction)) (exponent - fraction.length)

end Decimal

end StoreGateway

import StoreGateway.Number.Binary64

/-!
The decimal text of a binary64 number: the fewest digits that read back as it, of those the nearest
to it, and of two equally near the even one.
-/

namespace StoreGateway

/-- The number `digits · 10^exponent`. -/
structure Scaled where
  digits : Nat
  exponent : Int
  deriving DecidableEq, Repr

namespace Scaled

/-- Moves trailing zeros of the digits into the exponent. -/
def withoutTrailingZeros (s : Scaled) : Scaled :=
  if h : s.digits ≠ 0 ∧ s.digits % 10 = 0 then
    withoutTrailingZeros ⟨s.digits / 10, s.exponent + 1⟩
  else s
termination_by s.digits
decreasing_by omega

end Scaled

namespace Binary64

/-- Whole steps that separate a magnitude from the next one above it. -/
def gapAbove (steps : Nat) : Nat := Nat.pow 2 (steps.log2 + 1 - 53)

/-- The gap below is half as wide at a power of two. -/
def gapBelow (steps : Nat) : Nat :=
  if steps = Nat.pow 2 steps.log2 then max 1 (gapAbove steps / 2) else gapAbove steps

/--
Whether `num / den` steps, counted in quarters, lie where the nearest number is the given one. The
ends of that interval belong to it when the last significant bit is zero.
-/
def reads (steps num den : Nat) : Bool :=
  let low := (4 * steps - 2 * gapBelow steps) * den
  let high := (4 * steps + 2 * gapAbove steps) * den
  if (steps / gapAbove steps) % 2 = 0 then low ≤ num && num ≤ high else low < num && num < high

def decimalExponentBelow (steps : Nat) : Int :=
  (((steps.log2 : Int) - 1074) * 30103).fdiv 100000

def tenTo (exponent : Int) : Nat × Nat :=
  if 0 ≤ exponent then (Nat.pow 10 exponent.toNat, 1) else (1, Nat.pow 10 (-exponent).toNat)

/-- The exponent of the first decimal digit. -/
def decimalExponent (steps : Nat) : Int :=
  let below := decimalExponentBelow steps
  let (num, den) := tenTo (below + 1)
  if num * stepsInOne ≤ steps * den then below + 1 else below

/-- The neighbour of a magnitude on the grid of multiples of `10^exponent` that reads back as it. -/
def onGrid? (steps : Nat) (exponent : Int) : Option Scaled :=
  let (num, den) := tenTo exponent
  let unit := num * stepsInOne
  let below := steps * den / unit
  let fits (digits : Nat) : Bool := reads steps (4 * digits * unit) den
  match fits below, fits (below + 1) with
  | true, true => some ⟨roundQuotient (steps * den) unit, exponent⟩
  | true, false => some ⟨below, exponent⟩
  | false, true => some ⟨below + 1, exponent⟩
  | false, false => none

/-- Seventeen digits always read back, so the last grid tried has a hit. -/
def shortest (steps : Nat) : Scaled :=
  let top := decimalExponent steps
  match (List.range 17).findSome? fun (n : Nat) => onGrid? steps (top - n) with
  | some found => found.withoutTrailingZeros
  | none => ⟨steps, -1074⟩

/--
Positional from 10⁻⁵ up to below 10¹⁶, with a digit on both sides of the point; otherwise one digit,
the rest after a point, and an exponent with its sign.
-/
def magnitudeText (steps : Nat) : String :=
  if steps = 0 then "0.0"
  else
    let ⟨number, exponent⟩ := shortest steps
    let digits := Nat.toDigits 10 number
    let lead : Int := exponent + digits.length - 1
    if 0 ≤ lead ∧ lead < 16 then
      let whole := digits.take (lead.toNat + 1)
      let fraction := digits.drop (lead.toNat + 1)
      String.ofList (whole ++ List.replicate (lead.toNat + 1 - whole.length) '0') ++ "." ++
        (if fraction = [] then "0" else String.ofList fraction)
    else if -5 ≤ lead ∧ lead < 0 then
      "0." ++ String.ofList (List.replicate (-lead - 1).toNat '0' ++ digits)
    else
      let fraction := digits.drop 1
      String.ofList (digits.take 1) ++
        (if fraction = [] then "" else "." ++ String.ofList fraction) ++
        (if lead < 0 then "e-" else "e+") ++ toString lead.natAbs

def toText (x : Binary64) : String := (if x.negative then "-" else "") ++ magnitudeText x.steps

end Binary64

end StoreGateway

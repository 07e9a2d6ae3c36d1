/-!
Finite numbers of the binary64 format. Every such number is a whole multiple of the least positive
one, 2⁻¹⁰⁷⁴, so a number is a sign and a count of least steps, and rounding is exact arithmetic on
natural numbers.
-/

namespace StoreGateway

/-- A magnitude in least steps, with a sign that zero has too. -/
structure Binary64 where
  negative : Bool
  steps : Nat
  deriving DecidableEq, Repr, Inhabited

namespace Binary64

def stepsInOne : Nat := Nat.pow 2 1074

def limit : Nat := Nat.pow 2 2098

/-- The nearest whole number to a quotient; a half goes to the even neighbour. -/
def roundQuotient (num den : Nat) : Nat :=
  let whole := num / den
  let twice := 2 * (num % den)
  if twice < den || (twice == den && whole % 2 == 0) then whole else whole + 1

/-- The nearest count of steps that 53 significant bits can hold. -/
def roundSteps (num den : Nat) : Nat :=
  let spare := Nat.pow 2 ((num / den).log2 + 1 - 53)
  roundQuotient num (den * spare) * spare

def finite? (x : Binary64) : Option Binary64 := if x.steps < limit then some x else none

def ofRatio (negative : Bool) (num den : Nat) : Binary64 :=
  ⟨negative, roundSteps (num * stepsInOne) den⟩

def ofInt (i : Int) : Binary64 := ofRatio (i < 0) i.natAbs 1

def mul (x y : Binary64) : Binary64 :=
  ⟨x.negative != y.negative, roundSteps (x.steps * y.steps) stepsInOne⟩

def div (x y : Binary64) : Binary64 :=
  ⟨x.negative != y.negative, roundSteps (x.steps * stepsInOne) y.steps⟩

def toSteps (x : Binary64) : Int := if x.negative then -(x.steps : Int) else x.steps

def compare (x y : Binary64) : Ordering := Ord.compare x.toSteps y.toSteps

end Binary64

end StoreGateway

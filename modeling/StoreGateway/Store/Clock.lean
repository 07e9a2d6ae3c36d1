/-!
Modification stamps and generated identifiers. A supply gives each of them out once, so that what a
store answers is a function of its state.
-/

namespace StoreGateway

/-- The time in nanoseconds since the start of 1970, and the next identifier as a number. -/
structure Supply where
  now : Nat
  nextId : Nat
  deriving DecidableEq, Repr

namespace Supply

def padded (width n : Nat) : String :=
  let digits := Nat.toDigits 10 n
  String.ofList (List.replicate (width - digits.length) '0' ++ digits)

/-- Year, month and day of a count of days since the start of 1970. -/
def civilDate (days : Nat) : Nat × Nat × Nat :=
  let shifted := days + 719468
  let era := shifted / 146097
  let dayOfEra := shifted % 146097
  let yearOfEra := (dayOfEra - dayOfEra / 1460 + dayOfEra / 36524 - dayOfEra / 146096) / 365
  let dayOfYear := dayOfEra - (365 * yearOfEra + yearOfEra / 4 - yearOfEra / 100)
  let fromMarch := (5 * dayOfYear + 2) / 153
  let month := if fromMarch < 10 then fromMarch + 3 else fromMarch - 9
  let year := yearOfEra + era * 400
  (if month ≤ 2 then year + 1 else year, month, dayOfYear - (153 * fromMarch + 2) / 5 + 1)

/-- A time as `2026-01-31T23:59:59.000000000+00:00`. -/
def stampText (nanoseconds : Nat) : String :=
  let seconds := nanoseconds / 1000000000
  let (year, month, day) := civilDate (seconds / 86400)
  let second := seconds % 86400
  padded 4 year ++ "-" ++ padded 2 month ++ "-" ++ padded 2 day ++ "T" ++
    padded 2 (second / 3600) ++ ":" ++ padded 2 (second / 60 % 60) ++ ":" ++
    padded 2 (second % 60) ++ "." ++ padded 9 (nanoseconds % 1000000000) ++ "+00:00"

def stamp (s : Supply) : String × Supply := (stampText s.now, { s with now := s.now + 1000 })

/-- The identifier for a number: thirty hexadecimal digits around the marks of its version. -/
def idText (n : Nat) : String :=
  let digits := Nat.toDigits 16 (n % Nat.pow 16 30)
  let all := List.replicate (30 - digits.length) '0' ++ digits
  let part (start count : Nat) : String := String.ofList ((all.drop start).take count)
  part 0 8 ++ "-" ++ part 8 4 ++ "-4" ++ part 12 3 ++ "-8" ++ part 15 3 ++ "-" ++ part 18 12

def id (s : Supply) : String × Supply := (idText s.nextId, { s with nextId := s.nextId + 1 })

end Supply

end StoreGateway

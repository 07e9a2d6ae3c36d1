import StoreGateway.Json.Value

/-! Outcomes of the items of a batch by their index, and the envelope that shows them. -/

namespace StoreGateway

inductive Outcome where
  | record (r : Record)
  | failed (message : String)
  deriving Repr

def Outcome.toValue : Outcome → Value
  | record r => .object r
  | failed message => .string message

/-- What an answer shows: the records, the indices that failed, and a count of records. -/
structure Envelope where
  resource : List Value
  error : Option (List Nat)
  count : Option Nat
  deriving Repr

namespace Envelope

def ofRecords (records : List Record) : Envelope := ⟨records.map .object, none, none⟩

def withCount (e : Envelope) (n : Nat) : Envelope := { e with count := some n }

def indices (positions : List Nat) : Value := .array (positions.map fun (i : Nat) => .int i)

/-- The members in the order in which they are written. -/
def toValue (e : Envelope) : Value :=
  .object ([("resource", .array e.resource)] ++
    (e.error.map fun failed => ("error", indices failed)).toList ++
    (e.count.map fun n => ("meta", .object [("count", .int (n : Nat))])).toList)

end Envelope

/-- Outcomes in the order of their indices; the failed indices; whether any item has ever failed. -/
structure BatchResult where
  outcomes : List (Nat × Outcome)
  failed : List Nat
  incomplete : Bool
  deriving Repr

namespace BatchResult

def empty : BatchResult := ⟨[], [], false⟩

/-- Puts an outcome at its place, over one of its index. -/
def placeOutcome (index : Nat) (o : Outcome) : List (Nat × Outcome) → List (Nat × Outcome)
  | [] => [(index, o)]
  | (other, p) :: rest =>
    if index = other then (index, o) :: rest
    else if index < other then (index, o) :: (other, p) :: rest
    else (other, p) :: placeOutcome index o rest

/-- Puts an index at its place, once. -/
def placeIndex (index : Nat) : List Nat → List Nat
  | [] => [index]
  | other :: rest =>
    if index = other then other :: rest
    else if index < other then index :: other :: rest
    else other :: placeIndex index rest

def record (b : BatchResult) (index : Nat) (r : Record) : BatchResult :=
  { b with outcomes := placeOutcome index (.record r) b.outcomes }

def fail (b : BatchResult) (index : Nat) (message : String) : BatchResult :=
  ⟨placeOutcome index (.failed message) b.outcomes, placeIndex index b.failed, true⟩

/-- The records of the items that succeeded. -/
def records (b : BatchResult) : List Record :=
  b.outcomes.filterMap fun (_, o) => match o with
    | .record r => some r
    | .failed _ => none

def outcome? (b : BatchResult) (index : Nat) : Option Outcome := b.outcomes.lookup index

/-- One value for each item: its record, or the message of its failure. -/
def resource (b : BatchResult) : List Value := b.outcomes.map fun (_, o) => o.toValue

def envelope (b : BatchResult) : Envelope :=
  if b.incomplete then ⟨b.resource, some b.failed, none⟩ else Envelope.ofRecords b.records

end BatchResult

end StoreGateway

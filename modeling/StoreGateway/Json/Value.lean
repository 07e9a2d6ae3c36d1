import StoreGateway.Number.Shortest

/-! JSON values, and records: lists of members sorted by name, each name once. -/

namespace StoreGateway

/-- Whole numbers within 64 bits, signed or not, are `int`; every other number is `float`. -/
inductive Value where
  | null
  | bool (b : Bool)
  | int (i : Int)
  | float (x : Binary64)
  | string (s : String)
  | array (items : List Value)
  | object (members : List (String × Value))
  deriving Repr, Inhabited

abbrev Record := List (String × Value)

namespace Record

def get? (r : Record) (name : String) : Option Value := r.lookup name

def contains (r : Record) (name : String) : Bool := r.any (·.1 == name)

/-- Puts a member at its place in the order, over one of the same name. -/
def insert : Record → String → Value → Record
  | [], name, v => [(name, v)]
  | (other, w) :: rest, name, v =>
    if name = other then (name, v) :: rest
    else if name < other then (name, v) :: (other, w) :: rest
    else (other, w) :: insert rest name v

def erase (r : Record) (name : String) : Record := r.filter (·.1 != name)

def extend (r more : Record) : Record := more.foldl (fun acc (name, v) => acc.insert name v) r

def ofMembers (members : List (String × Value)) : Record := extend [] members

def names (r : Record) : List String := r.map (·.1)

end Record

namespace Value

def isNull : Value → Bool
  | null => true
  | _ => false

def string? : Value → Option String
  | string s => some s
  | _ => none

def object? : Value → Option Record
  | object r => some r
  | _ => none

mutual

/-- Equality of kind and content. Floats are equal by value, and never equal to whole numbers. -/
def same : Value → Value → Bool
  | null, null => true
  | bool a, bool b => a == b
  | int i, int j => i == j
  | float x, float y => x.toSteps == y.toSteps
  | string s, string t => s == t
  | array xs, array ys => sameItems xs ys
  | object xs, object ys => sameMembers xs ys
  | _, _ => false

def sameItems : List Value → List Value → Bool
  | [], [] => true
  | x :: xs, y :: ys => same x y && sameItems xs ys
  | _, _ => false

def sameMembers : List (String × Value) → List (String × Value) → Bool
  | [], [] => true
  | (a, x) :: xs, (b, y) :: ys => a == b && same x y && sameMembers xs ys
  | _, _ => false

end

/-- The nearest float to a number, and nothing of any other kind. -/
def toBinary64? : Value → Option Binary64
  | int i => some (Binary64.ofInt i)
  | float x => some x
  | _ => none

/--
Numbers compare as floats, strings by code point, and `false` comes before `true`; values of
different kinds, nulls, arrays and objects do not compare.
-/
def compare? (a b : Value) : Option Ordering :=
  match a.toBinary64?, b.toBinary64? with
  | some x, some y => some (x.compare y)
  | _, _ =>
    match a, b with
    | string s, string t => some (Ord.compare s t)
    | bool p, bool q => some (Ord.compare p q)
    | _, _ => none

/-- Values that compare are equal when neither comes first; others by kind and content. -/
def equals (a b : Value) : Bool :=
  match compare? a b with
  | some order => order == .eq
  | none => same a b

end Value

end StoreGateway

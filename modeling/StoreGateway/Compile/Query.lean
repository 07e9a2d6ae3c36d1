import StoreGateway.Json.Value

/-! Queries in a store's own language. -/

namespace StoreGateway

structure BoundParam where
  placeholder : String
  value : Value
  deriving Repr

/-- The text of a filter, and the values bound in it. -/
structure CompiledFilter where
  text : String
  params : List BoundParam
  deriving Repr

def CompiledFilter.isEmpty (c : CompiledFilter) : Bool := c.text.isEmpty

/--
A filter for the table store, a SELECT statement for the document store. Empty text asks for every
record.
-/
structure NativeQuery where
  text : String
  params : List BoundParam
  limit : Option Nat
  deriving Repr

namespace NativeQuery

def ofText (text : String) : NativeQuery := ⟨text, [], none⟩

/-- The bound values by placeholder; of two with one placeholder the later counts. -/
def paramsByName (q : NativeQuery) : Record :=
  Record.ofMembers (q.params.map fun p => (p.placeholder, p.value))

end NativeQuery

end StoreGateway

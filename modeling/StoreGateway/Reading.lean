/-! The result of reading from the front of a list. -/

namespace StoreGateway

/-- What was found, and what follows it, which is shorter than what was given. -/
structure Reading (α : Type) {β : Type} (given : List β) where
  found : α
  rest : List β
  shorter : rest.length < given.length

end StoreGateway

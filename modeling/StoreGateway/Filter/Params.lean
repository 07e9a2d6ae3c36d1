import StoreGateway.Json.Value

/-! Replacement parameters, found with or without the sigil of their name. -/

namespace StoreGateway

abbrev Params := Record

namespace Params

def isSigil (c : Char) : Bool := c == ':' || c == '@'

def bareName (name : String) : String := String.ofList (name.toList.dropWhile isSigil)

/-- The name as it stands is looked for first, then without sigils, then with either of them. -/
def lookup? (params : Params) (name : String) : Option Value :=
  let bare := bareName name
  (params.get? name).or <| (params.get? bare).or <|
    (params.get? (":" ++ bare)).or (params.get? ("@" ++ bare))

end Params

end StoreGateway

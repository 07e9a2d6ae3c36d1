/-! Where a piece of text stands in another. -/

namespace StoreGateway.Text

/-- The first place at which the pattern starts. -/
def indexOf? (pattern : List Char) : List Char → Option Nat
  | [] => if pattern = [] then some 0 else none
  | c :: cs =>
    if pattern.isPrefixOf (c :: cs) then some 0 else (indexOf? pattern cs).map (· + 1)

/-- The last place at which the pattern starts. -/
def lastIndexOf? (pattern : List Char) : List Char → Option Nat
  | [] => if pattern = [] then some 0 else none
  | c :: cs =>
    match lastIndexOf? pattern cs with
    | some i => some (i + 1)
    | none => if pattern.isPrefixOf (c :: cs) then some 0 else none

end StoreGateway.Text

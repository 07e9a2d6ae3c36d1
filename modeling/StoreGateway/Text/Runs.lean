/-! Sets of characters as runs of code points. -/

namespace StoreGateway.Text

/-- Whether a code point is in one of the runs, each given by its first and its last. -/
def inRuns (runs : List (Nat × Nat)) (code : Nat) : Bool :=
  runs.any fun (first, last) => first ≤ code && code ≤ last

end StoreGateway.Text

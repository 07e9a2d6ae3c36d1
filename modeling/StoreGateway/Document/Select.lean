import StoreGateway.Filter.Evaluation
import StoreGateway.Text.Ascii
import StoreGateway.Text.Blank
import StoreGateway.Text.Search

/-!
SELECT statements of the document store:
`SELECT <* or columns> FROM <collection> [WHERE <predicate>] [ORDER BY <keys>]`. The clause words
are found as text, in any case: the first FROM, after it the first WHERE and the last ORDER BY.
-/

namespace StoreGateway

/-- No projection selects every property. -/
structure Select where
  projection : Option (List String)
  collection : String
  predicate : Option String
  orderBy : Option String
  deriving DecidableEq, Repr

inductive SelectFault where
  | notSelect (statement : String)
  | noFrom
  | noCollection
  /-- Two clause words share a character, so that there is no text between them to cut out. -/
  | overlap
  deriving DecidableEq, Repr

def SelectFault.message : SelectFault → String
  | notSelect statement => "expected SELECT statement: " ++ statement
  | noFrom => "missing FROM clause"
  | noCollection => "missing collection after FROM"
  | overlap => "overlapping clauses"

namespace Select

def selectWord : List Char := "SELECT ".toList
def fromWord : List Char := " FROM ".toList
def whereWord : List Char := " WHERE ".toList
def orderWord : List Char := " ORDER BY ".toList

/-- The text from one place up to another, if the places stand in that order. -/
def between? (start stop : Nat) (cs : List Char) : Except SelectFault (List Char) :=
  if start ≤ stop then .ok ((cs.drop start).take (stop - start)) else .error .overlap

def trimmed (cs : List Char) : String := String.ofList (Text.trimChars cs)

/-- The columns without their qualifier; a star stands for all of them. -/
def projectionOf (collection columns : String) : Option (List String) :=
  if columns = "*" then none
  else
    some (((Text.split ',' columns).map fun c => unqualify (some collection) (Text.trim c)).filter
      (· ≠ ""))

/-- What follows the columns: the collection, the predicate and the ordering. -/
def ofSource (columns : String) (rest : List Char) : Except SelectFault Select := do
  let upper := Text.asciiUpper rest
  let order := Text.lastIndexOf? orderWord upper
  let condition := Text.indexOf? whereWord upper
  let collection := trimmed (rest.take ((condition.or order).getD rest.length))
  if collection = "" then throw .noCollection
  let predicate ← match condition with
    | none => pure none
    | some start =>
      let stop := (order.filter (start < ·)).getD rest.length
      let cs ← between? (start + whereWord.length) stop rest
      pure (some (trimmed cs))
  let orderBy := order.map fun start => trimmed (rest.drop (start + orderWord.length))
  return ⟨projectionOf collection columns, collection,
    predicate.filter (· ≠ ""), orderBy.filter (· ≠ "")⟩

def ofText (text : String) : Except SelectFault Select := do
  let statement := Text.trimChars text.toList
  let upper := Text.asciiUpper statement
  if !selectWord.isPrefixOf upper then throw (.notSelect (String.ofList statement))
  match Text.indexOf? fromWord upper with
  | none => throw .noFrom
  | some start =>
    let columns ← between? selectWord.length start statement
    ofSource (trimmed columns) (statement.drop (start + fromWord.length))

end Select

end StoreGateway

import StoreGateway.Json.Value
import StoreGateway.Kind
import StoreGateway.Text.Blank

/-! Which fields of a record a caller wants back. The identifiers are always among them. -/

namespace StoreGateway

inductive Selection where
  | idsOnly
  | all
  | only (fields : List String)
  deriving DecidableEq, Repr

namespace Selection

/-- Nothing selects the identifiers, a star everything, and other text is a list of fields. -/
def ofText (text : Option String) : Selection :=
  match text.map Text.trim with
  | none | some "" => idsOnly
  | some "*" => all
  | some list => only (Text.commaList list)

/-- The columns to ask a store for, all of them when there is no list. -/
def projection (s : Selection) (kind : StoreKind) : Option (List String) :=
  match s with
  | all => none
  | idsOnly => some kind.identifiers
  | only fields => some (kind.identifiers.foldl
      (fun columns id => if columns.contains id then columns else columns ++ [id]) fields)

def keeps (s : Selection) (kind : StoreKind) (name : String) : Bool :=
  match s with
  | all => true
  | idsOnly => kind.identifiers.contains name
  | only fields => kind.identifiers.contains name || fields.contains name

/-- Reduces a record to the selection. -/
def clean (s : Selection) (kind : StoreKind) (r : Record) : Record :=
  r.filter fun (name, _) => s.keeps kind name

end Selection

end StoreGateway

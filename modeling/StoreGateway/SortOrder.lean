import StoreGateway.Filter.Evaluation
import StoreGateway.Text.Ascii
import StoreGateway.Text.Blank

/-! Sorting records by a list of fields, each ascending or descending. -/

namespace StoreGateway

structure SortKey where
  field : String
  descending : Bool
  deriving DecidableEq, Repr

namespace SortKey

/-- A field, and a direction after it; any word but `desc` stands for ascending. -/
def ofPart (qualifier : Option String) (part : String) : SortKey :=
  match Text.words part with
  | [] => ⟨"", false⟩
  | [field] => ⟨unqualify qualifier field, false⟩
  | field :: direction :: _ => ⟨unqualify qualifier field, Text.asciiLower direction == "desc"⟩

def ofText (qualifier : Option String) (text : String) : List SortKey :=
  (Text.commaList text).map (ofPart qualifier)

/-- Records that have the field come before others; values that do not compare are even. -/
def compareValues : Option Value → Option Value → Ordering
  | some a, some b => (a.compare? b).getD .eq
  | some _, none => .lt
  | none, some _ => .gt
  | none, none => .eq

/-- Descending order turns round all of it, also the place of records that lack the field. -/
def compare (key : SortKey) (r s : Record) : Ordering :=
  let order := compareValues (r.get? key.field) (s.get? key.field)
  if key.descending then order.swap else order

/-- The first key that tells two records apart decides. -/
def compareAll (keys : List SortKey) (r s : Record) : Ordering :=
  keys.foldl (fun order key => order.then (key.compare r s)) .eq

end SortKey

namespace Record

/-- Puts a record behind the last one that does not come after it; the list is in reverse. -/
def insertBehind (keys : List SortKey) (r : Record) : List Record → List Record
  | [] => [r]
  | last :: before =>
    if SortKey.compareAll keys r last == .lt then last :: insertBehind keys r before
    else r :: last :: before

/-- A stable sort: records that compare even keep their order. Where the comparison puts the records in
no order, nothing is relied on of the result but that it has the records given. -/
def sortByKeys (keys : List SortKey) (records : List Record) : List Record :=
  (records.foldl (fun sorted r => insertBehind keys r sorted) []).reverse

def sortBy (orderBy : String) (qualifier : Option String) (records : List Record) : List Record :=
  sortByKeys (SortKey.ofText qualifier orderBy) records

end Record

end StoreGateway

import StoreGateway.Filter.Basic
import StoreGateway.Json.Writer
import StoreGateway.Kind
import StoreGateway.Text.Blank

/-! The words, literals and field references of the two native languages. -/

namespace StoreGateway

def Comparator.entityWord : Comparator → String
  | eq => "eq"
  | ne => "ne"
  | gt => "gt"
  | ge => "ge"
  | lt => "lt"
  | le => "le"

def Comparator.documentWord : Comparator → String
  | eq => "="
  | ne => "<>"
  | gt => ">"
  | ge => ">="
  | lt => "<"
  | le => "<="

namespace StoreKind

/-- The entity language has neither lists nor null checks, and no language has patterns. -/
def relationWord? : StoreKind → Relation → Option String
  | table, .compare c => some c.entityWord
  | table, _ => none
  | document, .compare c => some c.documentWord
  | document, .oneOf => some "IN"
  | document, .isNull => some "IS NULL"
  | document, .isNotNull => some "IS NOT NULL"
  | document, .like => none

def connectiveWord : StoreKind → Connective → String
  | table, .and => "and"
  | table, .or => "or"
  | table, .not => "not"
  | document, .and => "AND"
  | document, .or => "OR"
  | document, .not => "NOT"

/-- Documents are referred to through their collection. -/
def qualify : StoreKind → String → String → String
  | table, _, field => field
  | document, collection, field => collection ++ "." ++ field

/-- The entity language has no ordering. -/
def ordering? : StoreKind → String → String → Option String
  | table, _, _ => none
  | document, collection, keys =>
    match Text.commaList keys with
    | [] => none
    | parts => some (", ".intercalate (parts.map (qualify document collection)))

end StoreKind

namespace Literal

def double (quote : Char) (cs : List Char) : List Char :=
  cs.flatMap fun c => if c = quote then [quote, quote] else [c]

def quote (text : String) : String := "'" ++ String.ofList (double '\'' text.toList) ++ "'"

/-- The literal for a value, the same in both languages. Arrays and objects are quoted JSON. -/
def text : Value → String
  | .string s => quote s
  | .array items => quote (Json.write (.array items))
  | .object members => quote (Json.write (.object members))
  | v => Json.write v

end Literal

end StoreGateway

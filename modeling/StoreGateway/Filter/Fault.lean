import StoreGateway.Filter.Basic

/-! What can be wrong with a filter, and with a value in it. -/

namespace StoreGateway

/-- A token that can not stand where it does. -/
inductive Misplaced where
  | afterFilter
  | beforeClose
  | asComparison
  | asRelation
  | afterIs
  | inList
  | listAsValue
  | asValue
  deriving DecidableEq, Repr

def Misplaced.message : Misplaced → String
  | afterFilter => "unexpected trailing input"
  | beforeClose => "expected ')' but found"
  | asComparison => "expected a comparison but found"
  | asRelation => "unknown comparison operator"
  | afterIs => "expected NULL after"
  | inList => "expected ',' or ')' in value list but found"
  | listAsValue => "value lists are only valid with IN, found"
  | asValue => "expected a value but found"

/-- What a filter that ends too early still lacks. -/
inductive Lacking where
  | close
  | comparison
  | listEnd
  | value
  | callEnd
  deriving DecidableEq, Repr

def Lacking.message : Lacking → String
  | close => "missing ')'"
  | comparison => "expected a comparison"
  | listEnd => "unterminated value list"
  | value => "missing comparison value"
  | callEnd => "unbalanced function call"

/-- Positions count bytes of the trimmed filter text. -/
inductive FilterFault where
  | unexpectedCharacter (c : Char) (position : Nat)
  | unterminatedString (position : Nat)
  | misplaced (what : Misplaced) (token : String) (position : Nat)
  | lacking (what : Lacking)
  | noRelation (field : String)
  | bareList
  | unknownField (name : String)
  | listOutsideIn (field : String)
  | emptyNegation
  | patternNotLiteral (field : String)
  | patternNotAtEnd (field : String)
  | noNullChecks (relation : Relation) (field : String)
  deriving DecidableEq, Repr

def FilterFault.message : FilterFault → String
  | unexpectedCharacter c position =>
    "unexpected character '" ++ c.toString ++ "' at position " ++ toString position
  | unterminatedString position =>
    "unterminated string starting at position " ++ toString position
  | misplaced what token position =>
    what.message ++ " '" ++ token ++ "' at position " ++ toString position
  | lacking what => what.message ++ " at end of filter"
  | noRelation field => "no comparison operator found after field '" ++ field ++ "'"
  | bareList => "Filter value lists must be wrapped in parentheses."
  | unknownField name => "Invalid or unknown field '" ++ name ++ "' in filter."
  | listOutsideIn field => "value list for '" ++ field ++ "' is only valid with IN"
  | emptyNegation => "NOT requires an operand"
  | patternNotLiteral field => "LIKE on '" ++ field ++ "' requires a literal pattern"
  | patternNotAtEnd field =>
    "only prefix patterns ('abc%') are supported by LIKE on '" ++ field ++ "'"
  | noNullChecks relation field =>
    "'" ++ relation.text ++ "' on '" ++ field ++
      "' is not supported by the entity table filter language"

/-- The kinds of value that a required field insists on. -/
inductive Expected where
  | integer
  | number
  | boolean
  deriving DecidableEq, Repr

def Expected.phrase : Expected → String
  | integer => "an integer"
  | number => "a number"
  | boolean => "a boolean"

inductive ValueFault where
  | unbound (param : String)
  | missing
  | mismatch (text : String) (expected : Expected)
  | patternNotText
  | keyNotLiteral
  deriving DecidableEq, Repr

def ValueFault.message : ValueFault → String
  | unbound param => "no value bound for parameter '" ++ param ++ "'"
  | missing => "comparison requires a value"
  | mismatch text expected => "'" ++ text ++ "' is not " ++ expected.phrase
  | patternNotText => "LIKE requires a string pattern"
  | keyNotLiteral => "key values must be literals"

/-- Why a filter can not be compiled. -/
inductive CompileFault where
  | filter (fault : FilterFault)
  | value (field : String) (fault : ValueFault)
  deriving DecidableEq, Repr

def CompileFault.message : CompileFault → String
  | filter fault => "Invalid or unparsable filter: " ++ fault.message
  | value field fault => "Invalid value for field '" ++ field ++ "': " ++ fault.message

end StoreGateway

/-!
Filters: comparisons of a field with an operand, combined by connectives. Operands stay as they were
written until a compiler or the evaluator gives them a value.
-/

namespace StoreGateway

inductive Connective where
  | and
  | or
  | not
  deriving DecidableEq, Repr

/-- The relations that every native language has a word for. -/
inductive Comparator where
  | eq
  | ne
  | gt
  | ge
  | lt
  | le
  deriving DecidableEq, Repr

def Comparator.text : Comparator → String
  | eq => "="
  | ne => "!="
  | gt => ">"
  | ge => ">="
  | lt => "<"
  | le => "<="

inductive Relation where
  | compare (c : Comparator)
  | oneOf
  | like
  | isNull
  | isNotNull
  deriving DecidableEq, Repr

namespace Relation

def takesList (r : Relation) : Bool := r == oneOf

def takesNothing (r : Relation) : Bool := r == isNull || r == isNotNull

def text : Relation → String
  | compare c => c.text
  | oneOf => "IN"
  | like => "LIKE"
  | isNull => "IS NULL"
  | isNotNull => "IS NOT NULL"

end Relation

inductive Operand where
  | absent
  /-- A literal as written, with its quotes. -/
  | literal (raw : String)
  /-- The name of a parameter, without the sigil it was written with. -/
  | param (name : String)
  /-- A call of a native function, as written. -/
  | call (raw : String)
  | list (items : List Operand)
  deriving Repr

structure Comparison where
  field : String
  relation : Relation
  operand : Operand
  negated : Bool
  deriving Repr

inductive Filter where
  | test (c : Comparison)
  | combine (op : Connective) (children : List Filter)
  deriving Repr

namespace Filter

def negate (f : Filter) : Filter := combine .not [f]

/-- The children of a node with this connective; any other filter stands for itself. -/
def operandsOf (op : Connective) : Filter → List Filter
  | combine inner children => if inner = op then children else [combine inner children]
  | f => [f]

/-- Joins two filters, taking chains of the same connective apart first. -/
def join (op : Connective) (left right : Filter) : Filter :=
  combine op (left.operandsOf op ++ right.operandsOf op)

mutual

def comparisonCount : Filter → Nat
  | test _ => 1
  | combine _ children => comparisonCountAll children

def comparisonCountAll : List Filter → Nat
  | [] => 0
  | f :: rest => comparisonCount f + comparisonCountAll rest

end

mutual

def fields : Filter → List String
  | test c => [c.field]
  | combine _ children => fieldsAll children

def fieldsAll : List Filter → List String
  | [] => []
  | f :: rest => fields f ++ fieldsAll rest

end

end Filter

end StoreGateway

import StoreGateway.Compile.Coercion

/-!
A filter with its fields resolved and its operands coerced, which is all that the native languages
differ in how to write.
-/

namespace StoreGateway

inductive Condition where
  | compare (c : Comparator) (operand : Coerced)
  | oneOf (operands : List Coerced)
  /-- A pattern without a wildcard. -/
  | exactly (text : String)
  /-- A pattern with a wildcard at its end: from the text before it up to below a bound. -/
  | between (lower : String) (upper : Option String)
  | nullCheck (present : Bool)
  deriving Repr

inductive Plan where
  | test (field : String) (condition : Condition) (negated : Bool)
  | negate (p : Plan)
  | all (children : List Plan)
  | any (children : List Plan)
  deriving Repr

/-- What a pattern asks for. A wildcard may only stand at its end. -/
def patternCondition (field : String) (v : Value) : Except CompileFault Condition :=
  match v with
  | .string s =>
    let start := s.toList.takeWhile (· ≠ '%')
    match s.toList.dropWhile (· ≠ '%') with
    | [] => .ok (.exactly s)
    | [_] => .ok (.between (String.ofList start) (Literal.upperBound? (String.ofList start)))
    | _ => .error (.filter (.patternNotAtEnd field))
  | _ => .error (.value field .patternNotText)

/-- What a compiler of the given kind looks fields and parameters up in. -/
structure Scope where
  kind : StoreKind
  fields : FieldMap
  params : Params

namespace Scope

def resolve (scope : Scope) (name : String) : Except CompileFault Field :=
  match scope.fields.resolve name with
  | .ok field => .ok field
  | .error fault => .error (.filter fault)

def condition (scope : Scope) (field : Field) (relation : Relation) (operand : Operand) :
    Except CompileFault Condition :=
  match relation with
  | .compare c => do return .compare c (← operand.coerce scope.params field)
  | .oneOf =>
    match operand with
    | .list items => do return .oneOf (← items.mapM (Operand.coerce scope.params field))
    | _ => .error (.filter .bareList)
  | .like => do
    match ← operand.coerce scope.params field with
    | .value v => patternCondition field.name v
    | .native _ => throw (.filter (.patternNotLiteral field.name))
  | .isNull | .isNotNull =>
    match scope.kind with
    | .table => .error (.filter (.noNullChecks relation field.name))
    | .document => .ok (.nullCheck (relation == .isNotNull))

def planTest (scope : Scope) (c : Comparison) : Except CompileFault Plan := do
  let field ← scope.resolve c.field
  return .test field.name (← scope.condition field c.relation c.operand) c.negated

mutual

/-- Plans a filter from left to right; the first fault met is the answer. -/
def plan (scope : Scope) : Filter → Except CompileFault Plan
  | .test c => scope.planTest c
  | .combine .not [] => .error (.filter .emptyNegation)
  | .combine .not (child :: _) => do return .negate (← scope.plan child)
  | .combine .and children => do return .all (← scope.planAll children)
  | .combine .or children => do return .any (← scope.planAll children)

def planAll (scope : Scope) : List Filter → Except CompileFault (List Plan)
  | [] => .ok []
  | f :: rest => do
    let p ← scope.plan f
    return p :: (← scope.planAll rest)

end

end Scope

namespace Plan

/-- Chains of `and` and `or` stand in parentheses inside one another; all else stands bare. -/
def isChain : Plan → Bool
  | all _ => true
  | any _ => true
  | _ => false

end Plan

end StoreGateway

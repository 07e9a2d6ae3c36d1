import StoreGateway.Compile.Plan
import StoreGateway.Compile.Query
import StoreGateway.Dialect
import StoreGateway.Filter.Parser

/-!
Filters in the entity table's language: literals in place, words for operators, lists and patterns
written out as chains. The service counts comparisons, so long lists of row keys are split.
-/

namespace StoreGateway.Entity

def maxComparisons : Nat := 15

/-- Row keys in one filter, which leaves a comparison for the partition key. -/
def maxIds : Nat := maxComparisons - 1

def operandText : Coerced → String
  | .value v => Literal.text v
  | .native raw => raw

def equality (field operand : String) : String := field ++ " eq " ++ operand

/-- A table's plan has no null checks. -/
def conditionText (field : String) : Condition → String
  | .compare c operand => field ++ " " ++ c.entityWord ++ " " ++ operandText operand
  | .oneOf operands =>
    "(" ++ " or ".intercalate (operands.map fun o => equality field (operandText o)) ++ ")"
  | .exactly text => equality field (Literal.quote text)
  | .between lower (some upper) =>
    "(" ++ field ++ " ge " ++ Literal.quote lower ++ " and " ++
      field ++ " lt " ++ Literal.quote upper ++ ")"
  | .between lower none => field ++ " ge " ++ Literal.quote lower
  | .nullCheck present => field ++ (if present then " ne null" else " eq null")

mutual

def planText : Plan → String
  | .test field condition negated =>
    if negated then "not (" ++ conditionText field condition ++ ")"
    else conditionText field condition
  | .negate p => "not (" ++ planText p ++ ")"
  | .all children => " and ".intercalate (childTexts children)
  | .any children => " or ".intercalate (childTexts children)

def childTexts : List Plan → List String
  | [] => []
  | p :: rest => (if p.isChain then "(" ++ planText p ++ ")" else planText p) :: childTexts rest

end

/-- Fields and parameters of a table, and how many row keys go into one filter. -/
structure Compiler where
  fields : FieldMap
  params : Params
  maxIds : Nat

namespace Compiler

/-- At least one row key, and no more than leave room for the partition key. -/
def new (fields : FieldMap) (params : Params) (maxIds : Nat) : Compiler :=
  ⟨fields, params, max 1 (min maxIds Entity.maxIds)⟩

def scope (c : Compiler) : Scope := ⟨.table, c.fields, c.params⟩

def compile (c : Compiler) (f : Filter) : Except CompileFault CompiledFilter := do
  return ⟨planText (← c.scope.plan f), []⟩

end Compiler

/-- Pieces of the given size, the last maybe shorter. -/
def chunks {α : Type} (size : Nat) (xs : List α) : List (List α) :=
  match xs with
  | [] => []
  | x :: rest => (x :: rest.take (size - 1)) :: chunks size (rest.drop (size - 1))
termination_by xs.length
decreasing_by simp only [List.length_drop, List.length_cons]; omega

/-- A filter for some row keys, in a partition unless none is known. -/
def idsFilter (partition : Option String) (ids : List String) : String :=
  let rows := " or ".intercalate (ids.map fun id => equality rowKey (Literal.quote id))
  match partition.filter (· ≠ "") with
  | some p => equality partitionKey (Literal.quote p) ++ " and ( " ++ rows ++ " )"
  | none => rows

namespace Compiler

def idsFilters (c : Compiler) (ids : List String) (partition : Option String) : List String :=
  (chunks c.maxIds ids).map (idsFilter partition)

def refersTo (c : Compiler) (test : Comparison) (name : String) : Bool :=
  match c.fields.get? test.field with
  | some field => field.name == name
  | none => test.field == name

/-- The text of a key that a filter compares with. -/
def keyText (c : Compiler) (field : Field) (operand : Operand) : Except CompileFault String := do
  match ← operand.coerce c.params field with
  | .value (.string s) => return s
  | .value v => return Json.write v
  | .native _ => throw (.value field.name .keyNotLiteral)

/-- A list of row keys, alone or with one other comparison on either side of it. -/
def idList? (c : Compiler) : Filter → Option (Comparison × Option Comparison)
  | .test rows => some (rows, none)
  | .combine .and [.test a, .test b] =>
    if c.refersTo a rowKey then some (a, some b) else some (b, some a)
  | _ => none

def isOversized (c : Compiler) (rows : Comparison) : Option (List Operand) :=
  match rows.operand, rows.relation, rows.negated with
  | .list items, .oneOf, false =>
    if c.refersTo rows rowKey ∧ c.maxIds < items.length then some items else none
  | _, _, _ => none

def isPartition (c : Compiler) (test : Comparison) : Bool :=
  c.refersTo test partitionKey && test.relation == .compare .eq && !test.negated

/-- The row keys and partition key of a filter that is a list of too many row keys. -/
def oversizedIds (c : Compiler) (f : Filter) :
    Except CompileFault (Option (List String × Option String)) :=
  match c.idList? f with
  | none => .ok none
  | some (rows, other) =>
    match c.isOversized rows with
    | none => .ok none
    | some items => do
      let partition ← match other with
        | none => pure (some none)
        | some test =>
          if c.isPartition test then do
            let field ← c.scope.resolve test.field
            pure (some (some (← c.keyText field test.operand)))
          else pure none
      match partition with
      | none => return none
      | some partition =>
        let field ← c.scope.resolve rows.field
        return some (← items.mapM (c.keyText field), partition)

/-- One filter, or several when a list of row keys is longer than one filter may be. -/
def compileChunks (c : Compiler) (f : Filter) : Except CompileFault (List CompiledFilter) := do
  match ← c.oversizedIds f with
  | some (ids, partition) => return (c.idsFilters ids partition).map (⟨·, []⟩)
  | none => return [← c.compile f]

end Compiler

end StoreGateway.Entity

import StoreGateway.Compile.Plan
import StoreGateway.Compile.Query
import StoreGateway.Dialect
import StoreGateway.Filter.Parser

/-!
Filters in the document store's language: fields are qualified with the collection, and every value
is bound to a placeholder.
-/

namespace StoreGateway.DocumentQuery

/-- The placeholders given out so far, and the values bound to them in that order. -/
structure Bindings where
  given : Placeholders
  bound : List BoundParam

def Bindings.none : Bindings := ⟨[], []⟩

def bind (field : String) (v : Value) : StateM Bindings String := fun b =>
  let (placeholder, given) := b.given.next field
  (placeholder, ⟨given, b.bound ++ [⟨placeholder, v⟩]⟩)

def operandText (field : String) : Coerced → StateM Bindings String
  | .value v => bind field v
  | .native raw => pure raw

def conditionText (collection field : String) (condition : Condition) : StateM Bindings String :=
  let target := StoreKind.document.qualify collection field
  match condition with
  | .compare c operand => do
    return target ++ " " ++ c.documentWord ++ " " ++ (← operandText field operand)
  | .oneOf operands => do
    return target ++ " IN (" ++ ", ".intercalate (← operands.mapM (operandText field)) ++ ")"
  | .exactly text => do return target ++ " = " ++ (← bind field (.string text))
  | .between lower (some upper) => do
    let low ← bind field (.string lower)
    let high ← bind field (.string upper)
    return "(" ++ target ++ " >= " ++ low ++ " AND " ++ target ++ " < " ++ high ++ ")"
  | .between lower none => do return target ++ " >= " ++ (← bind field (.string lower))
  | .nullCheck present => return target ++ (if present then " IS NOT NULL" else " IS NULL")

mutual

def planText (collection : String) : Plan → StateM Bindings String
  | .test field condition negated => do
    let text ← conditionText collection field condition
    return if negated then "NOT (" ++ text ++ ")" else text
  | .negate p => do return "NOT (" ++ (← planText collection p) ++ ")"
  | .all children => do return " AND ".intercalate (← childTexts collection children)
  | .any children => do return " OR ".intercalate (← childTexts collection children)

def childTexts (collection : String) : List Plan → StateM Bindings (List String)
  | [] => pure []
  | p :: rest => do
    let text ← planText collection p
    return (if p.isChain then "(" ++ text ++ ")" else text) :: (← childTexts collection rest)

end

/-- Fields and parameters of a collection. -/
structure Compiler where
  collection : String
  fields : FieldMap
  params : Params

namespace Compiler

def compile (c : Compiler) (f : Filter) : Except CompileFault CompiledFilter := do
  let p ← Scope.plan ⟨.document, c.fields, c.params⟩ f
  let (text, bindings) := (planText c.collection p).run .none
  return ⟨text, bindings.bound⟩

/-- Blank text is no filter. -/
def compileText (c : Compiler) (text : String) : Except CompileFault (Option CompiledFilter) :=
  match Filter.parse c.params text with
  | .error fault => .error (.filter fault)
  | .ok none => .ok none
  | .ok (some f) => (c.compile f).map some

end Compiler

/-- The columns of a statement. A projection always has the document's identifier. -/
def columns (collection : String) : Option (List String) → String
  | none => "*"
  | some fields =>
    let all := if fields.contains documentId then fields else fields ++ [documentId]
    ", ".intercalate (all.map (StoreKind.document.qualify collection))

/-- A whole statement; parts that are absent or empty are left out. -/
def statement (collection : String) (filter : Option CompiledFilter)
    (projection : Option (List String)) (orderBy : Option String) : String :=
  let condition := match filter.filter fun f => !f.isEmpty with
    | some f => " WHERE " ++ f.text
    | none => ""
  let ordering := match orderBy.bind (StoreKind.document.ordering? collection) with
    | some keys => " ORDER BY " ++ keys
    | none => ""
  "SELECT " ++ columns collection projection ++ " FROM " ++ collection ++ condition ++ ordering

end StoreGateway.DocumentQuery

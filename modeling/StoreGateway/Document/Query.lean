import StoreGateway.Compile.Query
import StoreGateway.Document.Basic
import StoreGateway.Document.Select
import StoreGateway.Filter.Parser
import StoreGateway.SortOrder
import StoreGateway.Store.Fault

/-! Answering a SELECT from documents: predicate, ordering, limit and projection, in that order. -/

namespace StoreGateway.DocumentQuery

/-- Blank text has no statement and lists every document. -/
def statementOf (text : String) : Except DocumentFault (Option Select) :=
  if Text.trimChars text.toList = [] then .ok none
  else
    match Select.ofText text with
    | .ok s => .ok (some s)
    | .error fault => .error (.query fault.message)

def predicateOf (params : Params) (statement : Option Select) :
    Except DocumentFault (Option Filter) :=
  match statement.bind Select.predicate with
  | none => .ok none
  | some text =>
    match Filter.parse params text with
    | .ok f => .ok f
    | .error fault => .error (.query (CompileFault.filter fault).message)

/-- The records that the predicate keeps. -/
def matching (params : Params) (qualifier : Option String) (predicate : Option Filter) :
    List Record → Except DocumentFault (List Record)
  | [] => .ok []
  | r :: rest =>
    match predicate with
    | none => .ok (r :: rest)
    | some f =>
      match f.holds params qualifier r with
      | .error fault => .error (.query fault.message)
      | .ok kept => do
        let more ← matching params qualifier predicate rest
        return if kept then r :: more else more

def project (columns : List String) (r : Record) : Record :=
  r.filter fun (name, _) => name == documentId || columns.contains name

def limited (limit : Option Nat) (records : List Record) : List Record :=
  match limit with
  | some n => records.take n
  | none => records

def ordered (statement : Option Select) (records : List Record) : List Record :=
  match statement with
  | some { orderBy := some keys, collection, .. } => Record.sortBy keys (some collection) records
  | _ => records

def projected (statement : Option Select) (records : List Record) : List Record :=
  match statement.bind Select.projection with
  | some columns => records.map (project columns)
  | none => records

/-- The answer to a query over documents in the order of their listing. -/
def run (q : NativeQuery) (documents : List Document) : Except DocumentFault (List Record) := do
  let statement ← statementOf q.text
  let params := q.paramsByName
  let predicate ← predicateOf params statement
  let found ← matching params (statement.map Select.collection) predicate
    (documents.map Document.toRecord)
  return projected statement (limited q.limit (ordered statement found))

def count (q : NativeQuery) (documents : List Document) : Except DocumentFault Nat := do
  return (← run { q with limit := none } documents).length

end StoreGateway.DocumentQuery

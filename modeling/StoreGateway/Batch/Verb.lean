import StoreGateway.Text.LowerCase

/-! What a request does to each of its records. -/

namespace StoreGateway

inductive Verb where
  | create
  | replace
  | patch
  | delete
  | get
  deriving DecidableEq, Repr

namespace Verb

def name : Verb → String
  | create => "create"
  | replace => "replace"
  | patch => "patch"
  | delete => "delete"
  | get => "get"

def ofName? (text : String) : Option Verb :=
  match Text.lowerCase text with
  | "create" | "post" | "insert" => some create
  | "replace" | "put" | "update" => some replace
  | "patch" | "merge" => some patch
  | "delete" => some delete
  | "get" | "read" | "retrieve" => some get
  | _ => none

def isWrite (v : Verb) : Bool := v != get

def needsRecord (v : Verb) : Bool := v == create || v == replace || v == patch

def failureMessage : Verb → String
  | create => "Not all requested records could be created."
  | replace | patch => "Not all requested records could be updated."
  | delete => "Not all requested records could be deleted."
  | get => "Not all requested records could be retrieved."

end Verb

end StoreGateway

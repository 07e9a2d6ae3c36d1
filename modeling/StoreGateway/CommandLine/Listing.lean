import StoreGateway.Batch.Result
import StoreGateway.CommandLine.Paint
import StoreGateway.Json.Writer

/-! What commands print: marked lines, named values, and records as a table. -/

namespace StoreGateway.CommandLine

namespace Listing

/-- The names in the records, in the order in which they are first met. -/
def columns (resource : List Value) : List String :=
  ((resource.filterMap Value.object?).flatMap Record.names).foldl
    (fun columns name => if columns.contains name then columns else columns ++ [name]) []

/-- Text as it is, and every other value as JSON. -/
def cell : Value → String
  | .string s => s
  | v => Json.write v

end Listing

/-- How text is laid out for a terminal that may show colours. -/
structure Terminal where
  coloured : Bool
  deriving DecidableEq, Repr

namespace Terminal

def isOn (setting : String) : Bool := setting != "0"

/-- Colours are shown on a terminal, unless settings force or forbid them. -/
def ofEnvironment (isTerminal : Bool) (force forbid wanted : Option String) : Terminal :=
  if (force.map isOn).getD false then ⟨true⟩
  else if (forbid.map isOn).getD false then ⟨false⟩
  else ⟨isTerminal && (wanted.map isOn).getD true⟩

def paint (t : Terminal) (p : Paint) (text : String) : String := p.apply t.coloured text

def marked (t : Terminal) (p : Paint) (mark text : String) : String :=
  t.paint p mark ++ " " ++ text ++ "\n"

def success (t : Terminal) (text : String) : String := t.marked .success "✓" text
def failure (t : Terminal) (text : String) : String := t.marked .failure "✗" text
def warning (t : Terminal) (text : String) : String := t.marked .warning "⚠" text
def information (t : Terminal) (text : String) : String := t.marked .information "ℹ" text

def rule (t : Terminal) (length : Nat) : String :=
  t.paint .faint (String.ofList (List.replicate length '─'))

def title (t : Terminal) (text : String) : String :=
  "\n" ++ t.paint .title text ++ "\n" ++ t.rule text.utf8ByteSize ++ "\n"

def named (t : Terminal) (name value : String) : String :=
  "  " ++ t.paint .key name ++ ": " ++ value ++ "\n"

def item (t : Terminal) (text : String) : String :=
  "  " ++ t.paint .faint "•" ++ " " ++ text ++ "\n"

def separator : String := " │ "

def row (cells : List String) : String := "  " ++ separator.intercalate cells ++ "\n"

/-- The names of the columns over a rule, which is as long as their bytes, colours included. -/
def header (t : Terminal) (columns : List String) : String :=
  let line := separator.intercalate (columns.map (t.paint .key))
  "  " ++ line ++ "\n  " ++ t.rule line.utf8ByteSize ++ "\n"

/-- A record under its columns; what is no record takes the whole line. -/
def entry (t : Terminal) (columns : List String) (index : Nat) : Value → String
  | .object r =>
    row (toString index :: columns.map fun name => ((Record.get? r name).map Listing.cell).getD "")
  | other => row [toString index, t.paint .failedItem (Listing.cell other)]

def entries (t : Terminal) (columns : List String) (resource : List Value) : String :=
  String.join (resource.zipIdx.map fun (v, index) => t.entry columns index v)

def closing (t : Terminal) (e : Envelope) : String :=
  match e.error with
  | some failed =>
    t.warning (toString failed.length ++ " of " ++ toString e.resource.length ++
      " items failed (indices [" ++ ", ".intercalate (failed.map toString) ++ "])")
  | none => t.success (toString e.resource.length ++ " records")

/-- The records of an answer as a table, with what failed, and a count if there is one. -/
def envelope (t : Terminal) (e : Envelope) : String :=
  let columns := Listing.columns e.resource
  if columns.isEmpty && e.error.isNone then t.information "No records"
  else
    t.header ("#" :: columns) ++ t.entries columns e.resource ++ t.rule 60 ++ "\n" ++
      ((e.count.map fun n => t.named "count" (toString n)).getD "") ++ t.closing e

end Terminal

end StoreGateway.CommandLine

import StoreGateway.Json.Value

/-! JSON text of a value: compact, or indented by two blanks a level. -/

namespace StoreGateway.Json

def hexDigit (n : Nat) : Char := (Nat.digitChar n)

def escapeChar (c : Char) : List Char :=
  match c with
  | '"' => ['\\', '"']
  | '\\' => ['\\', '\\']
  | '\n' => ['\\', 'n']
  | '\r' => ['\\', 'r']
  | '\t' => ['\\', 't']
  | '\x08' => ['\\', 'b']
  | '\x0c' => ['\\', 'f']
  | c =>
    if c.toNat < 32 then ['\\', 'u', '0', '0', hexDigit (c.toNat / 16), hexDigit (c.toNat % 16)]
    else [c]

/-- Characters from 32 on stand for themselves, quotes and backslashes apart. -/
def quote (s : String) : String := "\"" ++ String.ofList (s.toList.flatMap escapeChar) ++ "\""

mutual

def write : Value → String
  | .null => "null"
  | .bool b => if b then "true" else "false"
  | .int i => toString i
  | .float x => x.toText
  | .string s => quote s
  | .array items => "[" ++ writeItems items ++ "]"
  | .object members => "\x7b" ++ writeMembers members ++ "\x7d"

def writeItems : List Value → String
  | [] => ""
  | [v] => write v
  | v :: rest => write v ++ "," ++ writeItems rest

def writeMembers : List (String × Value) → String
  | [] => ""
  | [(name, v)] => quote name ++ ":" ++ write v
  | (name, v) :: rest => quote name ++ ":" ++ write v ++ "," ++ writeMembers rest

end

def newLine (depth : Nat) : String := "\n" ++ String.ofList (List.replicate (2 * depth) ' ')

mutual

/-- The indented form. Objects are written in the order of their members. -/
def writeIndented (depth : Nat) : Value → String
  | .array [] => "[]"
  | .array items => "[" ++ indentItems (depth + 1) items ++ newLine depth ++ "]"
  | .object [] => "\x7b\x7d"
  | .object members => "\x7b" ++ indentMembers (depth + 1) members ++ newLine depth ++ "\x7d"
  | .null => "null"
  | .bool b => if b then "true" else "false"
  | .int i => toString i
  | .float x => x.toText
  | .string s => quote s

def indentItems (depth : Nat) : List Value → String
  | [] => ""
  | [v] => newLine depth ++ writeIndented depth v
  | v :: rest => newLine depth ++ writeIndented depth v ++ "," ++ indentItems depth rest

def indentMembers (depth : Nat) : List (String × Value) → String
  | [] => ""
  | [(name, v)] => newLine depth ++ quote name ++ ": " ++ writeIndented depth v
  | (name, v) :: rest =>
    newLine depth ++ quote name ++ ": " ++ writeIndented depth v ++ "," ++ indentMembers depth rest

end

end StoreGateway.Json

import StoreGateway.Json.Skip

/-!
Reading JSON text. `readAsWritten` keeps the members of objects in the order of the text, repeated
ones too; `read` sorts them and keeps the last of a name.
-/

namespace StoreGateway.Json

/-- How much of a value is read. Of a structure these are its named fields; what else an object
holds is passed over. -/
inductive Wanted where
  | all
  | fields (named : List (String × Wanted))
  | nothing

namespace Wanted

def member (name : String) : Wanted → Wanted
  | fields named => (named.lookup name).getD nothing
  | w => w

/-- What is wanted of the first item of an array. -/
def firstItem : Wanted → Wanted
  | fields ((_, w) :: _) => w
  | fields [] => nothing
  | w => w

/-- What is wanted of the items after the first. -/
def laterItems : Wanted → Wanted
  | fields (_ :: later) => fields later
  | w => w

end Wanted

mutual

/-- The value that the text starts with; no space stands before it. One of which nothing is wanted
comes out as null. -/
def readValue (wanted : Wanted) (depth : Nat) (cs : List Char) :
    Except ReadFault (Reading Value cs) :=
  match wanted, cs with
  | .nothing, cs => do
    let ⟨_, rest, h⟩ ← skipValue cs
    return ⟨.null, rest, h⟩
  | _, [] => .error .ended
  | _, '"' :: afterQuote => do
    let ⟨s, rest, h⟩ ← readString afterQuote
    return ⟨.string (String.ofList s), rest, by simp only [List.length_cons]; omega⟩
  | wanted, '[' :: afterOpen =>
    match depth with
    | 0 => .error .tooDeep
    | depth + 1 => do
      let ⟨items, rest, h⟩ ← readItems wanted depth true afterOpen
      return ⟨.array items, rest, by simp only [List.length_cons]; omega⟩
  | wanted, '{' :: afterOpen =>
    match depth with
    | 0 => .error .tooDeep
    | depth + 1 => do
      let ⟨members, rest, h⟩ ← readMembers wanted depth true afterOpen
      return ⟨.object members, rest, by simp only [List.length_cons]; omega⟩
  | _, c :: afterFirst => do
    let (v, rest) ← readAtom c afterFirst
    if h : rest.length < (c :: afterFirst).length then return ⟨v, rest, h⟩
    else throw .malformed
termination_by (cs.length, 0)

/-- The items of an array up to its closing bracket; a comma stands before all but the first. -/
def readItems (wanted : Wanted) (depth : Nat) (first : Bool) (cs : List Char) :
    Except ReadFault (Reading (List Value) cs) :=
  match h : skipSpaces cs with
  | [] => .error .ended
  | c :: afterFirst =>
    have shorter := length_lt_of_skipSpaces h
    if c = ']' then .ok ⟨[], afterFirst, shorter⟩
    else if first then do
      let ⟨v, afterItem, h'⟩ ← readValue wanted.firstItem depth (c :: afterFirst)
      let ⟨items, rest, h''⟩ ← readItems wanted.laterItems depth false afterItem
      return ⟨v :: items, rest, by simp only [List.length_cons] at h'; omega⟩
    else if c = ',' then do
      have := length_skipSpaces_le afterFirst
      let ⟨v, afterItem, h'⟩ ← readValue wanted.firstItem depth (skipSpaces afterFirst)
      let ⟨items, rest, h''⟩ ← readItems wanted.laterItems depth false afterItem
      return ⟨v :: items, rest, by omega⟩
    else .error .malformed
termination_by (cs.length, 1)
decreasing_by all_goals simp only [Prod.lex_def, List.length_cons] at *; omega

/-- The members of an object up to its closing brace, in the order of the text. -/
def readMembers (wanted : Wanted) (depth : Nat) (first : Bool) (cs : List Char) :
    Except ReadFault (Reading (List (String × Value)) cs) :=
  match h : skipSpaces cs with
  | [] => .error .ended
  | c :: afterFirst =>
    have shorter := length_lt_of_skipSpaces h
    if c = '}' then .ok ⟨[], afterFirst, shorter⟩
    else if first then do
      let ⟨member, afterMember, h'⟩ ← readMember wanted depth (c :: afterFirst)
      let ⟨members, rest, h''⟩ ← readMembers wanted depth false afterMember
      return ⟨member :: members, rest, by simp only [List.length_cons] at h'; omega⟩
    else if c = ',' then do
      have := length_skipSpaces_le afterFirst
      let ⟨member, afterMember, h'⟩ ← readMember wanted depth (skipSpaces afterFirst)
      let ⟨members, rest, h''⟩ ← readMembers wanted depth false afterMember
      return ⟨member :: members, rest, by omega⟩
    else .error .malformed
termination_by (cs.length, 1)
decreasing_by all_goals simp only [Prod.lex_def, List.length_cons] at *; omega

/-- A quoted name, a colon and a value. -/
def readMember (wanted : Wanted) (depth : Nat) (cs : List Char) :
    Except ReadFault (Reading (String × Value) cs) := do
  let ⟨name, afterColon, h⟩ ← readMemberName cs
  let ⟨v, rest, h'⟩ ← readValue (wanted.member name) depth afterColon
  return ⟨(name, v), rest, by omega⟩
termination_by (cs.length, 0)
decreasing_by all_goals simp only [Prod.lex_def] at *; omega

end

/-- The value that makes up the whole text, object members as written, nested at most `depth` deep. -/
def readWithin (depth : Nat) (wanted : Wanted) (text : String) : Except ReadFault Value := do
  let ⟨v, rest, _⟩ ← readValue wanted depth (skipSpaces text.toList)
  if skipSpaces rest = [] then return v else throw .trailing

def readAsWritten (wanted : Wanted) (text : String) : Except ReadFault Value :=
  readWithin maxDepth wanted text

mutual

/-- Sorts the members of every object by name and keeps the last of each name. -/
def sorted : Value → Value
  | .array items => .array (sortedItems items)
  | .object members => .object (Record.ofMembers (sortedMembers members))
  | v => v

def sortedItems : List Value → List Value
  | [] => []
  | v :: rest => sorted v :: sortedItems rest

def sortedMembers : List (String × Value) → List (String × Value)
  | [] => []
  | (name, v) :: rest => (name, sorted v) :: sortedMembers rest

end

def read (text : String) : Except ReadFault Value := (readAsWritten .all text).map sorted

end StoreGateway.Json

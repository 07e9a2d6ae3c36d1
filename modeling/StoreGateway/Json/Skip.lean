import StoreGateway.Json.Lexeme

/-!
Passing over a JSON value of which nothing is wanted. Only its syntax is looked at: values may be
nested to any depth, numbers may be out of range, and escapes may stand for half of a pair.
-/

namespace StoreGateway.Json

/-- Passes over a value that is neither string, array nor object. -/
def skipAtom (c : Char) (cs : List Char) : Except ReadFault (List Char) :=
  if c = '-' ∨ c.isDigit then (readNumeral (c :: cs)).map (·.2)
  else (readNamed c cs).map (·.2)

mutual

/-- Passes over the value that the text starts with; no space stands before it. -/
def skipValue (cs : List Char) : Except ReadFault (Reading Unit cs) :=
  match cs with
  | [] => .error .ended
  | '"' :: afterQuote => do
    let ⟨_, rest, h⟩ ← skipString afterQuote
    return ⟨(), rest, by simp only [List.length_cons]; omega⟩
  | '[' :: afterOpen => do
    let ⟨_, rest, h⟩ ← skipEntries false true afterOpen
    return ⟨(), rest, by simp only [List.length_cons]; omega⟩
  | '{' :: afterOpen => do
    let ⟨_, rest, h⟩ ← skipEntries true true afterOpen
    return ⟨(), rest, by simp only [List.length_cons]; omega⟩
  | c :: afterFirst => do
    let rest ← skipAtom c afterFirst
    if h : rest.length < (c :: afterFirst).length then return ⟨(), rest, h⟩
    else throw .malformed
termination_by (cs.length, 0)

/-- Passes over the rest of an array, or of an object, whose entries are named. -/
def skipEntries (named first : Bool) (cs : List Char) : Except ReadFault (Reading Unit cs) :=
  match h : skipSpaces cs with
  | [] => .error .ended
  | c :: afterFirst =>
    have shorter := length_lt_of_skipSpaces h
    if c = (if named then '}' else ']') then .ok ⟨(), afterFirst, shorter⟩
    else if first then do
      let ⟨_, afterEntry, h'⟩ ← skipEntry named (c :: afterFirst)
      let ⟨_, rest, h''⟩ ← skipEntries named false afterEntry
      return ⟨(), rest, by simp only [List.length_cons] at h'; omega⟩
    else if c = ',' then do
      have := length_skipSpaces_le afterFirst
      let ⟨_, afterEntry, h'⟩ ← skipEntry named (skipSpaces afterFirst)
      let ⟨_, rest, h''⟩ ← skipEntries named false afterEntry
      return ⟨(), rest, by omega⟩
    else .error .malformed
termination_by (cs.length, 2)
decreasing_by all_goals simp only [Prod.lex_def, List.length_cons] at *; omega

def skipEntry (named : Bool) (cs : List Char) : Except ReadFault (Reading Unit cs) :=
  if named then do
    let ⟨_, afterName, h⟩ ← skipMemberName cs
    let ⟨_, rest, h'⟩ ← skipValue afterName
    return ⟨(), rest, by omega⟩
  else skipValue cs
termination_by (cs.length, 1)
decreasing_by all_goals simp only [Prod.lex_def, true_and]; omega

end

end StoreGateway.Json

import StoreGateway.Json.Number
import StoreGateway.Reading

/-!
What JSON text is made of below arrays and objects: spaces, strings, names and numbers. A string can
be read, or passed over; then its escapes may stand for half of a pair.
-/

namespace StoreGateway.Json

def isSpace (c : Char) : Bool := c == ' ' || c == '\n' || c == '\t' || c == '\r'

def skipSpaces (cs : List Char) : List Char := cs.dropWhile isSpace

theorem length_skipSpaces_le (cs : List Char) : (skipSpaces cs).length ≤ cs.length :=
  (List.dropWhile_sublist _).length_le

theorem length_lt_of_skipSpaces {cs rest : List Char} {c : Char} (h : skipSpaces cs = c :: rest) :
    rest.length < cs.length := by
  have := length_skipSpaces_le cs
  rw [h, List.length_cons] at this
  omega

def hexValue? (c : Char) : Option Nat :=
  if c.isDigit then some (c.toNat - '0'.toNat)
  else if 'a' ≤ c ∧ c ≤ 'f' then some (c.toNat - 'a'.toNat + 10)
  else if 'A' ≤ c ∧ c ≤ 'F' then some (c.toNat - 'A'.toNat + 10)
  else none

def hexQuad? (a b c d : Char) : Option Nat := do
  return (((← hexValue? a) * 16 + (← hexValue? b)) * 16 + (← hexValue? c)) * 16 + (← hexValue? d)

/-- The character for two UTF-16 units of which the first is the higher half. -/
def joinHalves? (high low : Nat) : Option Char :=
  if 0xDC00 ≤ low ∧ low ≤ 0xDFFF then
    some (Char.ofNat (0x10000 + (high - 0xD800) * 0x400 + (low - 0xDC00)))
  else none

def shortEscape? : Char → Option Char
  | '"' => some '"'
  | '\\' => some '\\'
  | '/' => some '/'
  | 'b' => some '\x08'
  | 'f' => some '\x0c'
  | 'n' => some '\n'
  | 'r' => some '\r'
  | 't' => some '\t'
  | _ => none

/-- An escape after its backslash. Halves of a pair have to stand together. -/
def readEscape : (cs : List Char) → Except ReadFault (Reading Char cs)
  | [] => .error .ended
  | 'u' :: a :: b :: c :: d :: rest =>
    match hexQuad? a b c d with
    | none => .error .malformed
    | some unit =>
      if 0xD800 ≤ unit ∧ unit ≤ 0xDBFF then
        match rest with
        | '\\' :: 'u' :: e :: f :: g :: h :: more =>
          match (hexQuad? e f g h).bind (joinHalves? unit) with
          | some joined => .ok ⟨joined, more, by simp only [List.length_cons]; omega⟩
          | none => .error .malformed
        | _ => .error .malformed
      else if 0xDC00 ≤ unit ∧ unit ≤ 0xDFFF then .error .malformed
      else .ok ⟨Char.ofNat unit, rest, by simp only [List.length_cons]; omega⟩
  | c :: rest =>
    match shortEscape? c with
    | some meant => .ok ⟨meant, rest, by simp⟩
    | none => .error .malformed

/-- The characters of a string up to its closing quote, which is read too. -/
def readString (cs : List Char) : Except ReadFault (Reading (List Char) cs) :=
  match cs with
  | [] => .error .ended
  | '"' :: rest => .ok ⟨[], rest, by simp⟩
  | '\\' :: afterSlash => do
    let ⟨c, afterEscape, h⟩ ← readEscape afterSlash
    let ⟨more, rest, h'⟩ ← readString afterEscape
    return ⟨c :: more, rest, by simp only [List.length_cons]; omega⟩
  | c :: afterChar => do
    if c.toNat < 32 then throw .malformed
    let ⟨more, rest, h⟩ ← readString afterChar
    return ⟨c :: more, rest, by simp only [List.length_cons]; omega⟩
termination_by cs.length

/-- Passes over an escape after its backslash. -/
def skipEscape : (cs : List Char) → Except ReadFault (Reading Unit cs)
  | [] => .error .ended
  | 'u' :: a :: b :: c :: d :: rest =>
    match hexQuad? a b c d with
    | some _ => .ok ⟨(), rest, by simp only [List.length_cons]; omega⟩
    | none => .error .malformed
  | c :: rest =>
    match shortEscape? c with
    | some _ => .ok ⟨(), rest, by simp⟩
    | none => .error .malformed

/-- Passes over the rest of a string, its closing quote included. -/
def skipString (cs : List Char) : Except ReadFault (Reading Unit cs) :=
  match cs with
  | [] => .error .ended
  | '"' :: rest => .ok ⟨(), rest, by simp⟩
  | '\\' :: afterSlash => do
    let ⟨_, afterEscape, h⟩ ← skipEscape afterSlash
    let ⟨_, rest, h'⟩ ← skipString afterEscape
    return ⟨(), rest, by simp only [List.length_cons]; omega⟩
  | c :: afterChar => do
    if c.toNat < 32 then throw .malformed
    let ⟨_, rest, h⟩ ← skipString afterChar
    return ⟨(), rest, by simp only [List.length_cons]; omega⟩
termination_by cs.length

/-- A quoted name; its colon and the spaces after that are passed over. -/
def readMemberName (cs : List Char) : Except ReadFault (Reading String cs) :=
  match cs with
  | '"' :: afterQuote => do
    let ⟨name, afterName, h⟩ ← readString afterQuote
    match h' : skipSpaces afterName with
    | ':' :: afterColon =>
      have := length_lt_of_skipSpaces h'
      have := length_skipSpaces_le afterColon
      return ⟨String.ofList name, skipSpaces afterColon, by simp only [List.length_cons]; omega⟩
    | _ => throw .malformed
  | _ => .error .malformed

/-- Passes over a quoted name, its colon and the spaces after that. -/
def skipMemberName (cs : List Char) : Except ReadFault (Reading Unit cs) :=
  match cs with
  | '"' :: afterQuote => do
    let ⟨_, afterName, h⟩ ← skipString afterQuote
    match h' : skipSpaces afterName with
    | ':' :: afterColon =>
      have := length_lt_of_skipSpaces h'
      have := length_skipSpaces_le afterColon
      return ⟨(), skipSpaces afterColon, by simp only [List.length_cons]; omega⟩
    | _ => throw .malformed
  | _ => .error .malformed

/-- A literal name after its first letter. -/
def readName (name : List Char) (v : Value) (cs : List Char) :
    Except ReadFault (Value × List Char) :=
  if name.isPrefixOf cs then .ok (v, cs.drop name.length) else .error .malformed

/-- A value that has a name of its own. -/
def readNamed (c : Char) (cs : List Char) : Except ReadFault (Value × List Char) :=
  if c = 'n' then readName "ull".toList .null cs
  else if c = 't' then readName "rue".toList (.bool true) cs
  else if c = 'f' then readName "alse".toList (.bool false) cs
  else .error .malformed

def readAtom (c : Char) (cs : List Char) : Except ReadFault (Value × List Char) :=
  if c = '-' ∨ c.isDigit then readNumber (c :: cs) else readNamed c cs

end StoreGateway.Json

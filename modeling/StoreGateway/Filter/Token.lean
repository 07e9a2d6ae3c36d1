import StoreGateway.Filter.Fault
import StoreGateway.Reading
import StoreGateway.Text.Alphanumeric
import StoreGateway.Text.Ascii
import StoreGateway.Text.Blank

/-!
Tokens of filter text: parentheses, commas, operator symbols, words and quoted strings. Blanks
separate tokens and are dropped; a token knows the bytes it was read from.
-/

namespace StoreGateway

inductive Symbol where
  | doubleEqual
  | bangEqual
  | angles
  | greaterEqual
  | lessEqual
  | doubleAmpersand
  | doubleBar
  | equal
  | greater
  | less
  deriving DecidableEq, Repr

def Symbol.text : Symbol → String
  | doubleEqual => "=="
  | bangEqual => "!="
  | angles => "<>"
  | greaterEqual => ">="
  | lessEqual => "<="
  | doubleAmpersand => "&&"
  | doubleBar => "||"
  | equal => "="
  | greater => ">"
  | less => "<"

inductive Lexeme where
  | opening
  | closing
  | comma
  | symbol (s : Symbol)
  | word (text : String)
  /-- A string with its quotes, as written. -/
  | quoted (raw : String)
  deriving DecidableEq, Repr

namespace Lexeme

def text : Lexeme → String
  | opening => "("
  | closing => ")"
  | comma => ","
  | symbol s => s.text
  | word text => text
  | quoted raw => raw

def isSymbol : Lexeme → Bool
  | symbol _ => true
  | _ => false

end Lexeme

/-- Start and stop count bytes of the text. -/
structure Token where
  lexeme : Lexeme
  start : Nat
  stop : Nat
  deriving DecidableEq, Repr

/-- Keywords are recognised in any mixture of cases. -/
def Token.isKeyword (keyword : String) (t : Token) : Bool :=
  match t.lexeme with
  | .word w => Text.asciiLower w == keyword
  | _ => false

namespace Filter

def isWordChar (c : Char) : Bool :=
  Text.isAlphanumeric c || "_.:@-+%$*".toList.contains c

/-- The longest symbol at the front. -/
def symbol? : List Char → Option (Symbol × List Char)
  | '=' :: '=' :: rest => some (.doubleEqual, rest)
  | '!' :: '=' :: rest => some (.bangEqual, rest)
  | '<' :: '>' :: rest => some (.angles, rest)
  | '>' :: '=' :: rest => some (.greaterEqual, rest)
  | '<' :: '=' :: rest => some (.lessEqual, rest)
  | '&' :: '&' :: rest => some (.doubleAmpersand, rest)
  | '|' :: '|' :: rest => some (.doubleBar, rest)
  | '=' :: rest => some (.equal, rest)
  | '>' :: rest => some (.greater, rest)
  | '<' :: rest => some (.less, rest)
  | _ => none

theorem length_of_symbol? {cs rest : List Char} {s : Symbol} (h : symbol? cs = some (s, rest)) :
    rest.length < cs.length := by
  unfold symbol? at h
  split at h <;> simp only [Option.some.injEq, Prod.mk.injEq, reduceCtorEq] at h
  all_goals
    rw [← h.2]
    simp only [List.length_cons]
    omega

/-- The rest of a string through its closing quote, and what follows. Doubled quotes belong to
it. -/
def untilQuote (quote : Char) : List Char → Option (List Char × List Char)
  | [] => none
  | [c] => if c = quote then some ([c], []) else none
  | c :: d :: rest =>
    if c = quote then
      if d = quote then (untilQuote quote rest).map fun (inside, after) => (c :: d :: inside, after)
      else some ([c], d :: rest)
    else (untilQuote quote (d :: rest)).map fun (inside, after) => (c :: inside, after)

theorem length_of_untilQuote {quote : Char} {cs inside after : List Char}
    (h : untilQuote quote cs = some (inside, after)) : after.length < cs.length := by
  induction cs using untilQuote.induct quote generalizing inside after with
  | case1 => simp [untilQuote] at h
  | case2 => simp [untilQuote] at h; simp [← h]
  | case3 => simp_all [untilQuote]
  | case4 rest ih =>
    simp only [untilQuote, reduceIte, Option.map_eq_some_iff, Prod.exists, Prod.mk.injEq] at h
    obtain ⟨_, _, found, _, rfl⟩ := h
    have := ih found
    simp only [List.length_cons]
    omega
  | case5 d rest different =>
    simp only [untilQuote, reduceIte, different, Option.some.injEq, Prod.mk.injEq] at h
    simp [← h.2]
  | case6 c d rest different ih =>
    simp only [untilQuote, different, reduceIte, Option.map_eq_some_iff, Prod.exists,
      Prod.mk.injEq] at h
    obtain ⟨_, _, found, _, rfl⟩ := h
    have := ih found
    simp only [List.length_cons] at this ⊢
    omega

/-- The token that starts with a character that is not blank. -/
def lexeme (start : Nat) (c : Char) (cs : List Char) :
    Except FilterFault (Reading Lexeme (c :: cs)) :=
  if c = '(' then .ok ⟨.opening, cs, Nat.lt_add_one _⟩
  else if c = ')' then .ok ⟨.closing, cs, Nat.lt_add_one _⟩
  else if c = ',' then .ok ⟨.comma, cs, Nat.lt_add_one _⟩
  else if c = '\'' ∨ c = '"' then
    match h : untilQuote c cs with
    | some (inside, after) =>
      .ok ⟨.quoted (String.ofList (c :: inside)), after, by
        have := length_of_untilQuote h; simp only [List.length_cons]; omega⟩
    | none => .error (.unterminatedString start)
  else
    match h : symbol? (c :: cs) with
    | some (s, rest) => .ok ⟨.symbol s, rest, length_of_symbol? h⟩
    | none =>
      if isWordChar c then
        .ok ⟨.word (String.ofList (c :: cs.takeWhile isWordChar)), cs.dropWhile isWordChar, by
          have := (List.dropWhile_sublist isWordChar (l := cs)).length_le
          simp only [List.length_cons]; omega⟩
      else .error (.unexpectedCharacter c start)

def tokensFrom (start : Nat) (cs : List Char) : Except FilterFault (List Token) :=
  match cs with
  | [] => .ok []
  | c :: more =>
    if Text.isBlank c then tokensFrom (start + c.utf8Size) more
    else do
      let ⟨found, rest, _⟩ ← lexeme start c more
      let stop := start + found.text.utf8ByteSize
      return ⟨found, start, stop⟩ :: (← tokensFrom stop rest)
termination_by cs.length
decreasing_by
  · simp only [List.length_cons]
    omega
  · assumption

def tokenize (text : String) : Except FilterFault (List Token) := tokensFrom 0 text.toList

end Filter

end StoreGateway

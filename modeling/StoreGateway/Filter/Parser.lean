import StoreGateway.Filter.Params
import StoreGateway.Filter.Token
import StoreGateway.Text.LowerCase

/-!
The filter grammar. Loosest first stand `OR`, `||` and `NOR`, then `AND` and `&&`, then `NOT`, then
a filter in parentheses or a comparison. Chains group to the left, and keywords take any case.
-/

namespace StoreGateway.Filter

/-- What parsing looks things up in: the characters of the text, and the names of parameters. -/
structure Source where
  text : List Char
  params : Params

/-- The text from a byte offset on. -/
def dropBytes : Nat → List Char → List Char
  | _, [] => []
  | 0, cs => cs
  | n, c :: cs => dropBytes (n - c.utf8Size) cs

def takeBytes : Nat → List Char → List Char
  | _, [] => []
  | 0, _ => []
  | n, c :: cs => c :: takeBytes (n - c.utf8Size) cs

def Source.slice (source : Source) (start stop : Nat) : String :=
  String.ofList (takeBytes (stop - start) (dropBytes start source.text))

def misplacedAt (what : Misplaced) (t : Token) : FilterFault :=
  .misplaced what t.lexeme.text t.start

/-- The end of a call's arguments: where its parentheses balance, and the tokens after that. -/
def callEnd (depth : Nat) : List Token → Option (Nat × List Token)
  | [] => none
  | t :: rest =>
    match t.lexeme with
    | .opening => callEnd (depth + 1) rest
    | .closing => if depth ≤ 1 then some (t.stop, rest) else callEnd (depth - 1) rest
    | _ => callEnd depth rest

theorem length_of_callEnd {depth stop : Nat} {ts rest : List Token}
    (h : callEnd depth ts = some (stop, rest)) : rest.length < ts.length := by
  induction ts generalizing depth with
  | nil => simp [callEnd] at h
  | cons t more ih =>
    simp only [callEnd] at h
    split at h
    · have := ih h; simp only [List.length_cons]; omega
    · split at h
      · simp_all
      · have := ih h; simp only [List.length_cons]; omega
    · have := ih h; simp only [List.length_cons]; omega

/-- A word that is no call: a parameter if a sigil or the parameters at hand say so. -/
def wordOperand (params : Params) (word : String) : Operand :=
  match word.toList with
  | [] => .literal word
  | c :: rest =>
    if Params.isSigil c then .param (String.ofList rest)
    else if (params.lookup? word).isSome then .param word
    else .literal word

def parseOperand (source : Source) (ts : List Token) :
    Except FilterFault (Reading Operand ts) :=
  match ts with
  | [] => .error (.lacking .value)
  | t :: rest =>
    match t.lexeme with
    | .quoted raw => .ok ⟨.literal raw, rest, by simp⟩
    | .word w =>
      match rest.head?.map Token.lexeme with
      | some .opening =>
        match h : callEnd 0 rest with
        | some (stop, after) =>
          .ok ⟨.call (source.slice t.start stop), after, by
            have := length_of_callEnd h; simp only [List.length_cons]; omega⟩
        | none => .error (.lacking .callEnd)
      | _ => .ok ⟨wordOperand source.params w, rest, by simp⟩
    | .opening => .error (misplacedAt .listAsValue t)
    | _ => .error (misplacedAt .asValue t)

/-- Operands separated by commas, up to the closing parenthesis. -/
def parseItems (source : Source) (ts : List Token) :
    Except FilterFault (Reading (List Operand) ts) := do
  let ⟨item, afterItem, h⟩ ← parseOperand source ts
  match afterItem, h with
  | [], _ => throw (.lacking .listEnd)
  | t :: rest, h =>
    match t.lexeme with
    | .comma =>
      let ⟨items, after, h'⟩ ← parseItems source rest
      return ⟨item :: items, after, by simp only [List.length_cons] at h; omega⟩
    | .closing => return ⟨[item], rest, by simp only [List.length_cons] at h; omega⟩
    | _ => throw (misplacedAt .inList t)
termination_by ts.length
decreasing_by simp only [List.length_cons] at h; omega

def parseList (source : Source) (ts : List Token) :
    Except FilterFault (Reading Operand ts) :=
  match ts with
  | [] => .error .bareList
  | t :: rest =>
    if t.lexeme = .opening then do
      let ⟨items, after, h⟩ ← parseItems source rest
      return ⟨.list items, after, by simp only [List.length_cons]; omega⟩
    else .error .bareList

def comparatorOfSymbol? : Symbol → Option Comparator
  | .equal | .doubleEqual => some .eq
  | .bangEqual | .angles => some .ne
  | .greater => some .gt
  | .greaterEqual => some .ge
  | .less => some .lt
  | .lessEqual => some .le
  | .doubleAmpersand | .doubleBar => none

def relationOfWord? (word : String) : Option Relation :=
  match Text.lowerCase word with
  | "eq" => some (.compare .eq)
  | "ne" | "neq" => some (.compare .ne)
  | "gt" => some (.compare .gt)
  | "ge" | "gte" => some (.compare .ge)
  | "lt" => some (.compare .lt)
  | "le" | "lte" => some (.compare .le)
  | "in" => some .oneOf
  | "like" => some .like
  | _ => none

/-- What follows the word `is`: an optional `not`, then `null`. -/
def parseNullCheck (is : Token) (ts : List Token) : Except FilterFault (Reading Relation ts) :=
  match ts with
  | a :: b :: rest =>
    if a.isKeyword "not" then
      if b.isKeyword "null" then .ok ⟨.isNotNull, rest, by simp only [List.length_cons]; omega⟩
      else .error (misplacedAt .afterIs is)
    else if a.isKeyword "null" then .ok ⟨.isNull, b :: rest, by simp⟩
    else .error (misplacedAt .afterIs is)
  | [a] =>
    if a.isKeyword "null" then .ok ⟨.isNull, [], by simp⟩ else .error (misplacedAt .afterIs is)
  | [] => .error (misplacedAt .afterIs is)

def parseRelation (field : String) (ts : List Token) :
    Except FilterFault (Reading Relation ts) :=
  match ts with
  | [] => .error (.noRelation field)
  | t :: rest =>
    match t.lexeme with
    | .symbol s =>
      match comparatorOfSymbol? s with
      | some c => .ok ⟨.compare c, rest, by simp⟩
      | none => .error (misplacedAt .asRelation t)
    | .word w =>
      match relationOfWord? w with
      | some r => .ok ⟨r, rest, by simp⟩
      | none =>
        if Text.lowerCase w = "is" then do
          let ⟨r, after, h⟩ ← parseNullCheck t rest
          return ⟨r, after, by simp only [List.length_cons]; omega⟩
        else .error (misplacedAt .asRelation t)
    | _ => .error (misplacedAt .asRelation t)

/-- Whether a `not` stands between the field and its relation, and the tokens after it. -/
def skipNot : List Token → Bool × List Token
  | [] => (false, [])
  | t :: rest => if t.isKeyword "not" then (true, rest) else (false, t :: rest)

theorem length_skipNot_le (ts : List Token) : (skipNot ts).2.length ≤ ts.length := by
  unfold skipNot
  split
  · simp
  · split <;> simp

/-- A comparison after its field. -/
def parseComparison (source : Source) (field : String) (ts : List Token) :
    Except FilterFault (Reading Filter ts) := do
  have := length_skipNot_le ts
  let negated := (skipNot ts).1
  let ⟨relation, afterRelation, h⟩ ← parseRelation field (skipNot ts).2
  if relation.takesNothing then
    return ⟨.test ⟨field, relation, .absent, negated⟩, afterRelation, by omega⟩
  else
    let ⟨operand, after, h'⟩ ←
      if relation.takesList then parseList source afterRelation
      else parseOperand source afterRelation
    return ⟨.test ⟨field, relation, operand, negated⟩, after, by omega⟩

/-- How two operands of the loosest rank are joined: by `OR`, or by `NOR`. -/
def orJoiner? (t : Token) : Option (Filter → Filter → Filter) :=
  if t.isKeyword "or" || t.lexeme == .symbol .doubleBar then some (join .or)
  else if t.isKeyword "nor" then some fun left right => negate (join .or left right)
  else none

def isAnd (t : Token) : Bool := t.isKeyword "and" || t.lexeme == .symbol .doubleAmpersand

def isNegation (t next : Token) : Bool := t.isKeyword "not" && !next.lexeme.isSymbol

mutual

def parseOr (source : Source) (ts : List Token) : Except FilterFault (Reading Filter ts) := do
  let ⟨left, rest, h⟩ ← parseAnd source ts
  let ⟨whole, after, h'⟩ ← parseOrs source left rest
  return ⟨whole, after, by omega⟩
termination_by 5 * ts.length + 4

/-- The rest of a chain of the loosest rank, joined to what stands before it. -/
def parseOrs (source : Source) (left : Filter) (ts : List Token) :
    Except FilterFault (Filter × { rest : List Token // rest.length ≤ ts.length }) :=
  match ts with
  | [] => .ok (left, ⟨[], by simp⟩)
  | t :: rest =>
    match orJoiner? t with
    | none => .ok (left, ⟨t :: rest, by simp⟩)
    | some joined => do
      let ⟨right, afterRight, h⟩ ← parseAnd source rest
      let ⟨whole, after, h'⟩ ← parseOrs source (joined left right) afterRight
      return (whole, ⟨after, by simp only [List.length_cons]; omega⟩)
termination_by 5 * ts.length + 0

def parseAnd (source : Source) (ts : List Token) : Except FilterFault (Reading Filter ts) := do
  let ⟨left, rest, h⟩ ← parseNot source ts
  let ⟨whole, after, h'⟩ ← parseAnds source left rest
  return ⟨whole, after, by omega⟩
termination_by 5 * ts.length + 3

def parseAnds (source : Source) (left : Filter) (ts : List Token) :
    Except FilterFault (Filter × { rest : List Token // rest.length ≤ ts.length }) :=
  match ts with
  | [] => .ok (left, ⟨[], by simp⟩)
  | t :: rest =>
    if isAnd t then do
      let ⟨right, afterRight, h⟩ ← parseNot source rest
      let ⟨whole, after, h'⟩ ← parseAnds source (join .and left right) afterRight
      return (whole, ⟨after, by simp only [List.length_cons]; omega⟩)
    else .ok (left, ⟨t :: rest, by simp⟩)
termination_by 5 * ts.length + 0

def parseNot (source : Source) (ts : List Token) : Except FilterFault (Reading Filter ts) :=
  match ts with
  | t :: next :: rest =>
    if isNegation t next then do
      let ⟨f, after, h⟩ ← parseNot source (next :: rest)
      return ⟨negate f, after, by simp only [List.length_cons] at h ⊢; omega⟩
    else parsePrimary source (t :: next :: rest)
  | ts => parsePrimary source ts
termination_by 5 * ts.length + 2

def parsePrimary (source : Source) (ts : List Token) : Except FilterFault (Reading Filter ts) :=
  match ts with
  | [] => .error (.lacking .comparison)
  | t :: rest =>
    match t.lexeme with
    | .opening => do
      let ⟨f, afterInside, h⟩ ← parseOr source rest
      match afterInside, h with
      | [], _ => throw (.lacking .close)
      | u :: after, h =>
        if u.lexeme = .closing then
          return ⟨f, after, by simp only [List.length_cons] at h ⊢; omega⟩
        else throw (misplacedAt .beforeClose u)
    | .word field => do
      let ⟨f, after, h⟩ ← parseComparison source field rest
      return ⟨f, after, by simp only [List.length_cons]; omega⟩
    | _ => .error (misplacedAt .asComparison t)
termination_by 5 * ts.length + 1

end

/-- The filter that makes up all the tokens. -/
def ofTokens (source : Source) (ts : List Token) : Except FilterFault Filter := do
  let ⟨f, rest, _⟩ ← parseOr source ts
  match rest with
  | [] => return f
  | t :: _ => throw (misplacedAt .afterFilter t)

/-- Blank text is no filter. -/
def parse (params : Params) (text : String) : Except FilterFault (Option Filter) := do
  let trimmed := Text.trimChars text.toList
  if trimmed = [] then return none
  else return some (← ofTokens ⟨trimmed, params⟩ (← tokensFrom 0 trimmed))

end StoreGateway.Filter

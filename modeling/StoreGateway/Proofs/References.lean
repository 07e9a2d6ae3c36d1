import StoreGateway.Compile.Document
import StoreGateway.Compile.Entity
import StoreGateway.Proofs.Conjunction
import StoreGateway.Proofs.Equality
import StoreGateway.Proofs.OwnTerms

/-!
References to parameters, from the text of a filter to the values that the compilers take for them.
A reference loses its sigil when it is read, and is then looked up under several names. Main
statement: a parameter that has the very name of a reference is found exactly if no other spelling of
the name stands before it.
-/

namespace StoreGateway

namespace Params

def keyOf? (params : Params) (name : String) : Option String :=
  [name, bareName name, ":" ++ bareName name, "@" ++ bareName name].find? fun key =>
    (params.get? key).isSome

theorem lookup?_eq_keyOf? (params : Params) (name : String) :
    params.lookup? name = (params.keyOf? name).bind params.get? := by
  unfold lookup? keyOf?
  generalize bareName name = bare
  cases first : params.get? name with
  | some v => simp [first]
  | none =>
    cases second : params.get? bare with
    | some v => simp [first, second]
    | none =>
      cases third : params.get? (":" ++ bare) with
      | some v => simp [first, second, third]
      | none => cases fourth : params.get? ("@" ++ bare) <;> simp [first, second, third, fourth]

/-- A name behind a sigil that no other spelling stands before: it has no more sigils, there is no
parameter of the name alone, and none with a colon before one with an at sign. -/
structure Unshadowed (params : Params) (sigil : Char) (name : String) : Prop where
  bare : bareName name = name
  alone : params.get? name = none
  first : sigil = '@' → params.get? (":" ++ name) = none

theorem length_bareName_le (name : String) : (bareName name).length ≤ name.length := by
  rw [bareName, String.length_ofList, ← String.length_toList]
  exact (List.dropWhile_suffix _).length_le

theorem bareName_eq_of_length {name : String} (long : name.length ≤ (bareName name).length) :
    bareName name = name := by
  rw [bareName, String.length_ofList, ← String.length_toList] at long
  rw [bareName, (List.dropWhile_suffix _).eq_of_length_le long, String.ofList_toList]

theorem length_reference (sigil : Char) (name : String) :
    (String.singleton sigil ++ name).length = 1 + name.length := by
  rw [String.length_append, String.length_singleton]

theorem length_key_le {params : Params} {name key : String}
    (found : params.keyOf? name = some key) :
    key.length ≤ max name.length (1 + (bareName name).length) := by
  have member := List.mem_of_find?_eq_some found
  simp only [List.mem_cons, List.not_mem_nil, or_false] at member
  rcases member with rfl | rfl | rfl | rfl
  · exact Nat.le_max_left _ _
  · exact Nat.le_trans (length_bareName_le name) (Nat.le_max_left _ _)
  · exact Nat.le_trans (Nat.le_of_eq (length_reference ':' _)) (Nat.le_max_right _ _)
  · exact Nat.le_trans (Nat.le_of_eq (length_reference '@' _)) (Nat.le_max_right _ _)

theorem keyOf?_eq_reference_iff {params : Params} {sigil : Char} {name : String}
    (is : isSigil sigil = true) (stored : (params.get? (String.singleton sigil ++ name)).isSome) :
    params.keyOf? name = some (String.singleton sigil ++ name) ↔
      Unshadowed params sigil name := by
  have length := length_reference sigil name
  by_cases bare : bareName name = name
  · unfold keyOf?
    rw [bare]
    cases alone : params.get? name with
    | some v =>
      refine iff_of_false (fun found => ?_) fun unshadowed => ?_
      · simp only [List.find?_cons, alone, Option.isSome_some, Option.some.injEq] at found
        have lengths := congrArg String.length found
        omega
      · rw [unshadowed.alone] at alone
        cases alone
    | none =>
      simp only [isSigil, Bool.or_eq_true, beq_iff_eq] at is
      rcases is with rfl | rfl
      · change (params.get? (":" ++ name)).isSome at stored
        simp only [List.find?_cons, alone, Option.isSome_none, stored]
        exact iff_of_true rfl ⟨bare, alone, fun other => by cases other⟩
      · change (params.get? ("@" ++ name)).isSome at stored
        cases first : params.get? (":" ++ name) with
        | some v =>
          simp only [List.find?_cons, alone, first, Option.isSome_none, Option.isSome_some]
          refine iff_of_false (fun same => ?_) fun unshadowed => ?_
          · have heads := congrArg (fun key => key.toList.head?) (Option.some.inj same)
            simp at heads
          · rw [unshadowed.first rfl] at first
            cases first
        | none =>
          simp only [List.find?_cons, alone, first, Option.isSome_none, stored]
          exact iff_of_true rfl ⟨bare, alone, fun _ => first⟩
  · refine iff_of_false (fun found => bare (bareName_eq_of_length ?_)) fun unshadowed =>
      bare unshadowed.bare
    have longest := length_key_le found
    omega

end Params

namespace Filter

variable {source : Source}

/-- A value as it is written: in quotes, as a word, or as a call. -/
inductive Written where
  | quoted (raw : String)
  | word (text : String)
  | call (raw : String)

def Written.operand (params : Params) : Written → Operand
  | quoted raw => .literal raw
  | word text => wordOperand params text
  | call raw => .call raw

theorem singles_wordOperand (params : Params) (text : String) :
    (wordOperand params text).singles = [wordOperand params text] := by
  rcases wordOperand_cases params text with literal | ⟨name, param⟩
  · rw [literal]
    rfl
  · rw [param]
    rfl

theorem Written.singles_operand (params : Params) (value : Written) :
    (value.operand params).singles = [value.operand params] := by
  cases value with
  | quoted raw => rfl
  | call raw => rfl
  | word text => exact singles_wordOperand params text

/-- The values written behind a relation. -/
inductive Values where
  | absent
  | single (value : Written)
  | list (values : List Written)

namespace Values

def operand (params : Params) : Values → Operand
  | absent => .absent
  | single value => value.operand params
  | list values => .list (values.map (Written.operand params))

def all : Values → List Written
  | absent => []
  | single value => [value]
  | list values => values

theorem singles_operand (params : Params) (values : Values) :
    (values.operand params).singles = values.all.map (Written.operand params) := by
  cases values with
  | absent => rfl
  | list values => rfl
  | single value => exact value.singles_operand params

end Values

/-- A comparison as it is written. -/
structure Clause where
  field : String
  relation : Relation
  values : Values
  negated : Bool

def Clause.comparison (params : Params) (clause : Clause) : Comparison :=
  ⟨clause.field, clause.relation, clause.values.operand params, clause.negated⟩

/-- A value at the front of some tokens, and the tokens after it. -/
inductive WritesValue (source : Source) : List Token → Written → List Token → Prop
  | quoted {t : Token} {rest : List Token} {raw : String} (is : t.lexeme = .quoted raw) :
      WritesValue source (t :: rest) (.quoted raw) rest
  | call {t : Token} {rest after : List Token} {w : String} {stop : Nat}
      (is : t.lexeme = .word w) (opens : rest.head?.map Token.lexeme = some .opening)
      (ends : callEnd 0 rest = some (stop, after)) :
      WritesValue source (t :: rest) (.call (source.slice t.start stop)) after
  | word {t : Token} {rest : List Token} {w : String} (is : t.lexeme = .word w)
      (bare : rest.head?.map Token.lexeme ≠ some .opening) :
      WritesValue source (t :: rest) (.word w) rest

/-- Values up to the closing parenthesis of their list. -/
inductive WritesValues (source : Source) : List Token → List Written → List Token → Prop
  | last {ts rest : List Token} {t : Token} {value : Written}
      (first : WritesValue source ts value (t :: rest)) (is : t.lexeme = .closing) :
      WritesValues source ts [value] rest
  | more {ts mid rest : List Token} {t : Token} {value : Written} {values : List Written}
      (first : WritesValue source ts value (t :: mid)) (is : t.lexeme = .comma)
      (others : WritesValues source mid values rest) :
      WritesValues source ts (value :: values) rest

/-- A clause behind its field. -/
inductive WritesClause (source : Source) (field : String) :
    List Token → Clause → List Token → Prop
  | nothing {ts rest : List Token} {r : Relation}
      (relation : Found (parseRelation field (skipNot ts).2) r rest)
      (is : r.takesNothing = true) :
      WritesClause source field ts ⟨field, r, .absent, (skipNot ts).1⟩ rest
  | list {ts mid rest : List Token} {t : Token} {r : Relation} {values : List Written}
      (relation : Found (parseRelation field (skipNot ts).2) r (t :: mid))
      (is : r.takesList = true) (opens : t.lexeme = .opening)
      (written : WritesValues source mid values rest) :
      WritesClause source field ts ⟨field, r, .list values, (skipNot ts).1⟩ rest
  | single {ts mid rest : List Token} {r : Relation} {value : Written}
      (relation : Found (parseRelation field (skipNot ts).2) r mid)
      (takes : r.takesNothing = false) (alone : r.takesList = false)
      (written : WritesValue source mid value rest) :
      WritesClause source field ts ⟨field, r, .single value, (skipNot ts).1⟩ rest

/-- What stands between clauses: a parenthesis, or a word or symbol that joins or negates. -/
def isMark (t : Token) : Bool :=
  t.lexeme == .opening || t.lexeme == .closing || (orJoiner? t).isSome || isAnd t ||
    t.isKeyword "not"

/-- Tokens that are clauses, with marks between them. -/
inductive Laid (source : Source) : List Token → List Clause → Prop
  | nil : Laid source [] []
  | mark {t : Token} {ts : List Token} {clauses : List Clause} (is : isMark t = true)
      (rest : Laid source ts clauses) : Laid source (t :: ts) clauses
  | clause {t : Token} {ts rest : List Token} {field : String} {clause : Clause}
      {clauses : List Clause} (is : t.lexeme = .word field)
      (written : WritesClause source field ts clause rest) (others : Laid source rest clauses) :
      Laid source (t :: ts) (clause :: clauses)

theorem exists_written {ts rest : List Token} {o : Operand}
    (reads : ReadsOperand source ts o rest) :
    ∃ value, WritesValue source ts value rest ∧ o = value.operand source.params := by
  cases reads with
  | quoted is => exact ⟨_, .quoted is, rfl⟩
  | call is opens ends => exact ⟨_, .call is opens ends, rfl⟩
  | word is bare => exact ⟨_, .word is bare, rfl⟩

theorem exists_values {ts rest : List Token} {items : List Operand}
    (reads : ReadsItems source ts items rest) :
    ∃ values, WritesValues source ts values rest ∧
      items = values.map (Written.operand source.params) := by
  induction reads with
  | last first is =>
    obtain ⟨value, written, rfl⟩ := exists_written first
    exact ⟨[value], .last written is, rfl⟩
  | more first is _ ih =>
    obtain ⟨value, written, rfl⟩ := exists_written first
    obtain ⟨values, others, rfl⟩ := ih
    exact ⟨value :: values, .more written is others, rfl⟩

theorem exists_clause {field : String} {ts rest : List Token} {c : Comparison}
    (reads : ReadsComparison source field ts c rest) :
    ∃ clause, WritesClause source field ts clause rest ∧
      c = clause.comparison source.params := by
  cases reads with
  | nothing relation is => exact ⟨_, .nothing relation is, rfl⟩
  | list relation is opens operands =>
    obtain ⟨values, written, rfl⟩ := exists_values operands
    exact ⟨_, .list relation is opens written, rfl⟩
  | single relation takes alone operand =>
    obtain ⟨value, written, rfl⟩ := exists_written operand
    exact ⟨_, .single relation takes alone written, rfl⟩

theorem comparisons_negate (f : Filter) : (negate f).comparisons = f.comparisons :=
  List.append_nil _

theorem comparisons_joined {t : Token} {joined : Filter → Filter → Filter}
    (is : orJoiner? t = some joined) (left right : Filter) :
    (joined left right).comparisons = left.comparisons ++ right.comparisons := by
  unfold orJoiner? at is
  split at is
  · cases is
    exact comparisons_join .or left right
  · split at is
    · cases is
      exact (comparisons_negate _).trans (comparisons_join .or left right)
    · cases is

/-- Clauses that some tokens begin with, ahead of what is laid out behind them. -/
def Begins (source : Source) (ts : List Token) (clauses : List Clause) (rest : List Token) : Prop :=
  ∀ more, Laid source rest more → Laid source ts (clauses ++ more)

theorem Begins.trans {ts mid rest : List Token} {clauses others : List Clause}
    (first : Begins source ts clauses mid) (second : Begins source mid others rest) :
    Begins source ts (clauses ++ others) rest := by
  intro more laid
  rw [List.append_assoc]
  exact first _ (second _ laid)

theorem Begins.mark {t : Token} {ts rest : List Token} {clauses : List Clause}
    (is : isMark t = true) (begins : Begins source ts clauses rest) :
    Begins source (t :: ts) clauses rest :=
  fun more laid => .mark is (begins more laid)

theorem isMark_of_orJoiner {t : Token} {joined : Filter → Filter → Filter}
    (is : orJoiner? t = some joined) : isMark t = true := by
  simp [isMark, is]

theorem isMark_of_isAnd {t : Token} (is : isAnd t = true) : isMark t = true := by
  simp [isMark, is]

theorem isMark_of_isNegation {t next : Token} (is : isNegation t next = true) :
    isMark t = true := by
  simp [isMark, (Bool.and_eq_true_iff.mp is).1]

/-- A filter over some tokens goes by clauses: its comparisons are those of the clauses that the
tokens begin with, after those of the filter to its left. -/
def GoesByClauses (source : Source) (left : List Comparison) (ts : List Token) (f : Filter)
    (rest : List Token) : Prop :=
  ∃ clauses, Begins source ts clauses rest ∧
    f.comparisons = left ++ clauses.map (Clause.comparison source.params)

namespace GoesByClauses

variable {left : List Comparison} {ts mid rest : List Token} {f g : Filter}

theorem refl : GoesByClauses source f.comparisons ts f ts :=
  ⟨[], fun _ laid => laid, (List.append_nil _).symm⟩

theorem trans (first : GoesByClauses source left ts g mid)
    (second : GoesByClauses source g.comparisons mid f rest) :
    GoesByClauses source left ts f rest := by
  obtain ⟨clauses, begins, same⟩ := first
  obtain ⟨others, begins', same'⟩ := second
  refine ⟨clauses ++ others, begins.trans begins', ?_⟩
  rw [same', same, List.map_append, List.append_assoc]

theorem mark {t : Token} (is : isMark t = true) (right : GoesByClauses source [] ts g rest)
    (joined : f.comparisons = left ++ g.comparisons) :
    GoesByClauses source left (t :: ts) f rest := by
  obtain ⟨clauses, begins, same⟩ := right
  exact ⟨clauses, begins.mark is, by rw [joined, same, List.nil_append]⟩

end GoesByClauses

theorem Derives.goesByClauses {rank : Rank} {ts rest : List Token} {f : Filter}
    (derives : Derives source rank ts f rest) :
    GoesByClauses source ((rank.left?.map comparisons).getD []) ts f rest := by
  induction derives with
  | or _ _ ih ih' => exact ih.trans ih'
  | orEnd _ => exact .refl
  | orMore is _ _ ih ih' =>
    exact (ih.mark (isMark_of_orJoiner is) (comparisons_joined is _ _)).trans ih'
  | and _ _ ih ih' => exact ih.trans ih'
  | andEnd _ => exact .refl
  | andMore is _ _ ih ih' =>
    exact (ih.mark (isMark_of_isAnd is) (comparisons_join .and _ _)).trans ih'
  | negation is _ ih => exact ih.mark (isMark_of_isNegation is) (comparisons_negate _)
  | plain _ _ ih => exact ih
  | @group t u ts rest f opens _ closes ih =>
    obtain ⟨clauses, begins, same⟩ := ih
    have opened : isMark t = true := by simp [isMark, opens]
    have closed : isMark u = true := by simp [isMark, closes]
    exact ⟨clauses, .mark opened fun more laid => begins more (.mark closed laid), same⟩
  | comparison is reads =>
    obtain ⟨clause, written, rfl⟩ := exists_clause reads
    exact ⟨[clause], fun _ laid => .clause is written laid, rfl⟩

theorem wordOperand_reference (params : Params) {sigil : Char} (is : Params.isSigil sigil = true)
    (name : String) : wordOperand params (String.singleton sigil ++ name) = .param name := by
  have spelled : (String.singleton sigil ++ name).toList = sigil :: name.toList := by simp
  unfold wordOperand
  rw [spelled]
  simp only [is, if_true, String.ofList_toList]

end Filter

/-- A value as a compiler takes it for a field. -/
def Value.taken (field : Field) (v : Value) : Except CompileFault Coerced :=
  match conform field v with
  | .ok conformed => .ok (.value conformed)
  | .error fault => .error (.value field.name fault)

theorem Value.taken_value {field : Field} {v : Value} {x : Coerced}
    (taken : v.taken field = .ok x) : ∃ w, x = .value w := by
  unfold Value.taken at taken
  split at taken
  · cases taken
    exact ⟨_, rfl⟩
  · cases taken

theorem Operand.coerce_param (params : Params) (field : Field) (name : String) :
    (Operand.param name).coerce params field =
      (params.lookup? name).elim (.error (.value field.name (.unbound name)))
        (Value.taken field) := by
  simp only [coerce, value?]
  cases params.lookup? name with
  | none => rfl
  | some v => rfl

open StoreGateway.Filter

theorem Scope.coerces_of_plan {scope : Scope} {f : Filter} {p : Plan}
    (formed : Formed Comparison.Formed f) (planned : scope.plan f = .ok p) {c : Comparison}
    (member : c ∈ f.comparisons) {o : Operand} (single : o ∈ c.operand.singles) :
    ∃ field x, scope.resolve c.field = .ok field ∧ o.coerce scope.params field = .ok x := by
  obtain ⟨q, here⟩ := formed.planned_each planned c member
  obtain ⟨field, condition, resolved, made, -⟩ := Scope.planTest_cases here
  obtain ⟨x, coerced⟩ := Scope.coerces_of_condition (formed.each c member) made o single
  exact ⟨field, x, resolved, coerced⟩

/-- The comparisons of a filter are those of the clauses that its text is made of. A value that is
written there with a sigil is taken for the parameter that the rest of it is found under: by any
coercion, and so by either compiler when it plans the filter. If there is a parameter of the very name
of the reference, it is that one exactly if no other spelling of the name shadows it. -/
theorem references_answered {params : Params} {text : String} {f : Filter}
    (parsed : parse params text = .ok (some f)) :
    ∃ ts clauses, tokensFrom 0 (Text.trimChars text.toList) = .ok ts ∧
      Laid ⟨Text.trimChars text.toList, params⟩ ts clauses ∧
      f.comparisons = clauses.map (Clause.comparison params) ∧
      ∀ clause ∈ clauses, ∀ sigil name, Params.isSigil sigil = true →
        .word (String.singleton sigil ++ name) ∈ clause.values.all →
          .param name ∈ (clause.comparison params).operand.singles ∧
          (∀ field, (Operand.param name).coerce params field =
            ((params.keyOf? name).bind params.get?).elim
              (.error (.value field.name (.unbound name))) (Value.taken field)) ∧
          (∀ (scope : Scope) p, scope.params = params → scope.plan f = .ok p →
            ∃ field key v w, scope.resolve clause.field = .ok field ∧
              params.keyOf? name = some key ∧ params.get? key = some v ∧
              Value.taken field v = .ok (.value w)) ∧
          ∀ v, params.get? (String.singleton sigil ++ name) = some v →
            (params.keyOf? name = some (String.singleton sigil ++ name) ↔
              params.Unshadowed sigil name) := by
  obtain ⟨-, ts, read, derives⟩ := parse_eq_ok_iff.mp parsed
  obtain ⟨clauses, begins, same⟩ := derives.goesByClauses
  have laid := begins [] .nil
  rw [List.append_nil] at laid
  refine ⟨ts, clauses, read, laid, same, fun clause member sigil name is written => ?_⟩
  have inside : .param name ∈ (clause.comparison params).operand.singles := by
    change _ ∈ (clause.values.operand params).singles
    rw [Values.singles_operand, ← wordOperand_reference params is name]
    exact List.mem_map_of_mem written
  have answered (field : Field) : (Operand.param name).coerce params field =
      ((params.keyOf? name).bind params.get?).elim
        (.error (.value field.name (.unbound name))) (Value.taken field) := by
    rw [Operand.coerce_param, Params.lookup?_eq_keyOf?]
  refine ⟨inside, answered, fun scope p given planned => ?_, fun v stored => ?_⟩
  · have compared : clause.comparison params ∈ f.comparisons := by
      rw [same]
      exact List.mem_map_of_mem member
    obtain ⟨field, x, resolved, coerced⟩ :=
      Scope.coerces_of_plan (formed_of_parse parsed) planned compared inside
    subst given
    rw [answered] at coerced
    cases found : scope.params.keyOf? name with
    | none =>
      rw [found] at coerced
      cases coerced
    | some key =>
      cases stored : scope.params.get? key with
      | none =>
        rw [found, Option.bind_some, stored] at coerced
        cases coerced
      | some v =>
        rw [found, Option.bind_some, stored] at coerced
        change Value.taken field v = .ok x at coerced
        obtain ⟨w, rfl⟩ := Value.taken_value coerced
        exact ⟨field, key, v, w, resolved, rfl, stored, coerced⟩
  · exact Params.keyOf?_eq_reference_iff is (by rw [stored]; rfl)

def referring : Filter := .test ⟨"v", .compare .eq, .param "a", false⟩

theorem clause_of_equal {field : String} {t : Token} {ts rest : List Token} {clause : Clause}
    (is : t.lexeme = .symbol .equal) (written : WritesClause source field (t :: ts) clause rest) :
    ∃ value, WritesValue source ts value rest ∧
      clause = ⟨field, .compare .eq, .single value, false⟩ := by
  have skipped : skipNot (t :: ts) = (false, t :: ts) := by
    simp [skipNot, Token.isKeyword, is]
  have read {r : Relation} {after : List Token}
      (relation : Found (parseRelation field (skipNot (t :: ts)).2) r after) :
      r = .compare .eq ∧ after = ts := by
    rw [skipped] at relation
    obtain ⟨_, found⟩ := relation
    simp only [parseRelation, is, comparatorOfSymbol?] at found
    cases found
    exact ⟨rfl, rfl⟩
  cases written with
  | nothing relation is =>
    obtain ⟨rfl, -⟩ := read relation
    cases is
  | list relation is opens _ =>
    obtain ⟨rfl, -⟩ := read relation
    cases is
  | single relation _ _ value =>
    obtain ⟨rfl, rfl⟩ := read relation
    rw [skipped]
    exact ⟨_, value, rfl⟩

theorem references_answered_of_colon :
    let params : Params := [("@a", .int 1), (":a", .int 2)]
    parse params "v = :a" = .ok (some referring) ∧ params.keyOf? "a" = some ":a" ∧
      ∀ field, (Operand.param "a").coerce params field = Value.taken field (.int 2) := by
  have parsed : parse [("@a", .int 1), (":a", .int 2)] "v = :a" = .ok (some referring) := by
    decide +kernel
  have tokens : tokensFrom 0 (Text.trimChars "v = :a".toList) =
      .ok [⟨.word "v", 0, 1⟩, ⟨.symbol .equal, 2, 3⟩, ⟨.word ":a", 4, 6⟩] := by
    decide +kernel
  obtain ⟨ts, clauses, read, laid, -, answers⟩ := references_answered parsed
  cases tokens.symm.trans read
  have written : ∃ clause ∈ clauses, Written.word ":a" ∈ clause.values.all := by
    cases laid with
    | mark is _ => exact absurd is (by decide +kernel)
    | clause is tokens _ =>
      obtain ⟨value, written, rfl⟩ := clause_of_equal rfl tokens
      refine ⟨_, List.mem_cons_self, List.mem_singleton.mpr ?_⟩
      cases written with
      | quoted is => cases is
      | call _ opens _ => cases opens
      | word is _ =>
        cases is
        rfl
  obtain ⟨clause, member, inside⟩ := written
  obtain ⟨-, coerced, -, unshadowed⟩ := answers clause member ':' "a" rfl inside
  have found := (unshadowed (.int 2) rfl).mpr ⟨by decide +kernel, rfl, nofun⟩
  refine ⟨parsed, found, fun field => ?_⟩
  rw [coerced field, found]
  rfl

/-- A parameter by the name alone is taken for a reference with a colon, though there is one by that
very name. -/
theorem colon_reference_shadowed :
    let params : Params := [("a", .int 1), (":a", .int 2)]
    parse params "v = :a" = .ok (some referring) ∧ params.get? ":a" = some (.int 2) ∧
      Entity.Compiler.compile ⟨FieldMap.openFor .table, params, 14⟩ referring =
        .ok ⟨"v eq 1", []⟩ ∧
      DocumentQuery.Compiler.compile ⟨"t", FieldMap.openFor .document, params⟩ referring =
        .ok ⟨"t.v = @v1", [⟨"@v1", .int 1⟩]⟩ :=
  ⟨by decide +kernel, rfl, rfl, rfl⟩

end StoreGateway

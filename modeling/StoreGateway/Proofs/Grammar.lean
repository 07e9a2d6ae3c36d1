import StoreGateway.Filter.Parser
import StoreGateway.Proofs.Lexing

/-! The grammar that the filter parser follows, as a relation. -/

namespace StoreGateway.Filter

variable {source : Source}

/-- An operand at the front of some tokens, and the tokens after it. -/
inductive ReadsOperand (source : Source) : List Token → Operand → List Token → Prop
  | quoted {t : Token} {rest : List Token} {raw : String} (is : t.lexeme = .quoted raw) :
      ReadsOperand source (t :: rest) (.literal raw) rest
  | call {t : Token} {rest after : List Token} {w : String} {stop : Nat}
      (is : t.lexeme = .word w) (opens : rest.head?.map Token.lexeme = some .opening)
      (ends : callEnd 0 rest = some (stop, after)) :
      ReadsOperand source (t :: rest) (.call (source.slice t.start stop)) after
  | word {t : Token} {rest : List Token} {w : String} (is : t.lexeme = .word w)
      (bare : rest.head?.map Token.lexeme ≠ some .opening) :
      ReadsOperand source (t :: rest) (wordOperand source.params w) rest

/-- Operands up to the closing parenthesis of their list. -/
inductive ReadsItems (source : Source) : List Token → List Operand → List Token → Prop
  | last {ts rest : List Token} {t : Token} {item : Operand}
      (first : ReadsOperand source ts item (t :: rest)) (is : t.lexeme = .closing) :
      ReadsItems source ts [item] rest
  | more {ts mid rest : List Token} {t : Token} {item : Operand} {items : List Operand}
      (first : ReadsOperand source ts item (t :: mid)) (is : t.lexeme = .comma)
      (others : ReadsItems source mid items rest) :
      ReadsItems source ts (item :: items) rest

/-- What stands behind the field of a comparison. -/
inductive ReadsComparison (source : Source) (field : String) :
    List Token → Comparison → List Token → Prop
  | nothing {ts rest : List Token} {r : Relation}
      (relation : Found (parseRelation field (skipNot ts).2) r rest)
      (is : r.takesNothing = true) :
      ReadsComparison source field ts ⟨field, r, .absent, (skipNot ts).1⟩ rest
  | list {ts mid rest : List Token} {t : Token} {r : Relation} {items : List Operand}
      (relation : Found (parseRelation field (skipNot ts).2) r (t :: mid))
      (is : r.takesList = true) (opens : t.lexeme = .opening)
      (operands : ReadsItems source mid items rest) :
      ReadsComparison source field ts ⟨field, r, .list items, (skipNot ts).1⟩ rest
  | single {ts mid rest : List Token} {r : Relation} {o : Operand}
      (relation : Found (parseRelation field (skipNot ts).2) r mid)
      (takes : r.takesNothing = false) (alone : r.takesList = false)
      (operand : ReadsOperand source mid o rest) :
      ReadsComparison source field ts ⟨field, r, o, (skipNot ts).1⟩ rest

/-- The levels of the grammar; the rest of a chain knows the filter to its left. -/
inductive Rank where
  | or
  | orRest (left : Filter)
  | and
  | andRest (left : Filter)
  | not
  | primary

/-- A filter at the front of some tokens, and the tokens after it. -/
inductive Derives (source : Source) : Rank → List Token → Filter → List Token → Prop
  | or {ts mid rest : List Token} {left f : Filter} (first : Derives source .and ts left mid)
      (chain : Derives source (.orRest left) mid f rest) : Derives source .or ts f rest
  | orEnd {left : Filter} {rest : List Token} (ends : rest.head?.bind orJoiner? = none) :
      Derives source (.orRest left) rest left rest
  | orMore {t : Token} {ts mid rest : List Token} {left right f : Filter}
      {joined : Filter → Filter → Filter} (is : orJoiner? t = some joined)
      (next : Derives source .and ts right mid)
      (chain : Derives source (.orRest (joined left right)) mid f rest) :
      Derives source (.orRest left) (t :: ts) f rest
  | and {ts mid rest : List Token} {left f : Filter} (first : Derives source .not ts left mid)
      (chain : Derives source (.andRest left) mid f rest) : Derives source .and ts f rest
  | andEnd {left : Filter} {rest : List Token} (ends : rest.head?.any isAnd = false) :
      Derives source (.andRest left) rest left rest
  | andMore {t : Token} {ts mid rest : List Token} {left right f : Filter} (is : isAnd t = true)
      (next : Derives source .not ts right mid)
      (chain : Derives source (.andRest (join .and left right)) mid f rest) :
      Derives source (.andRest left) (t :: ts) f rest
  | negation {t next : Token} {ts rest : List Token} {f : Filter}
      (is : isNegation t next = true) (inner : Derives source .not (next :: ts) f rest) :
      Derives source .not (t :: next :: ts) (negate f) rest
  | plain {ts rest : List Token} {f : Filter}
      (bare : ∀ t next more, ts = t :: next :: more → isNegation t next = false)
      (inner : Derives source .primary ts f rest) : Derives source .not ts f rest
  | group {t u : Token} {ts rest : List Token} {f : Filter} (opens : t.lexeme = .opening)
      (inner : Derives source .or ts f (u :: rest)) (closes : u.lexeme = .closing) :
      Derives source .primary (t :: ts) f rest
  | comparison {t : Token} {ts rest : List Token} {field : String} {c : Comparison}
      (is : t.lexeme = .word field) (reads : ReadsComparison source field ts c rest) :
      Derives source .primary (t :: ts) (.test c) rest

theorem found_parseOperand_iff {ts rest : List Token} {o : Operand} :
    Found (parseOperand source ts) o rest ↔ ReadsOperand source ts o rest := by
  constructor
  · rintro ⟨shorter, read⟩
    unfold parseOperand at read
    split at read
    · cases read
    split at read
    · cases read; exact .quoted ‹_›
    · split at read
      · next opens =>
        split at read
        · cases read; exact .call ‹_› opens ‹_›
        · cases read
      · next bare =>
        cases read; exact .word ‹_› bare
    · cases read
    · cases read
  · intro reads
    cases reads with
    | @quoted t rest raw is =>
      rcases t with ⟨found, start, stop⟩
      cases is
      exact ⟨by simp, rfl⟩
    | @call t ts after w stop is opens ends =>
      rcases t with ⟨found, start, last⟩
      cases is
      refine ⟨Nat.lt_succ_of_lt (length_of_callEnd ends), ?_⟩
      simp only [parseOperand]
      split
      · split
        · next found => rw [ends] at found; cases found; rfl
        · next found => rw [ends] at found; cases found
      · next other => exact absurd opens other
    | @word t rest w is bare =>
      rcases t with ⟨found, start, last⟩
      cases is
      refine ⟨by simp, ?_⟩
      simp only [parseOperand]

theorem found_parseItems_iff {ts rest : List Token} {items : List Operand} :
    Found (parseItems source ts) items rest ↔ ReadsItems source ts items rest := by
  constructor
  · induction size : ts.length using Nat.strongRecOn generalizing ts items rest with
    | ind n ih =>
      rintro ⟨shorter, read⟩
      rw [parseItems] at read
      cases first : parseOperand source ts with
      | error fault => rw [first] at read; cases read
      | ok reading =>
        rcases reading with ⟨item, afterItem, h⟩
        have operand := found_parseOperand_iff.mp ⟨h, first⟩
        rw [first] at read
        simp only [bind, Except.bind] at read
        split at read
        · cases read
        · next t mid h =>
          split at read
          · next is =>
            cases others : parseItems source mid with
            | error fault => rw [others] at read; cases read
            | ok reading =>
              rcases reading with ⟨items, after, h'⟩
              rw [others] at read
              cases read
              rw [List.length_cons] at h
              exact .more operand is (ih mid.length (by omega) rfl ⟨h', others⟩)
          · next is => cases read; exact .last operand is
          · cases read
  · intro reads
    induction reads with
    | @last ts rest t item first is =>
      obtain ⟨shorter, read⟩ := found_parseOperand_iff.mpr first
      refine ⟨Nat.lt_of_succ_lt shorter, ?_⟩
      rcases t with ⟨found, start, stop⟩
      cases is
      rw [parseItems, read]
      rfl
    | @more ts mid rest t item items first is others ih =>
      obtain ⟨shorter, read⟩ := found_parseOperand_iff.mpr first
      obtain ⟨shorter', read'⟩ := ih
      refine ⟨Nat.lt_trans shorter' (Nat.lt_of_succ_lt shorter), ?_⟩
      rcases t with ⟨found, start, stop⟩
      cases is
      rw [parseItems, read]
      simp only [bind, Except.bind, read']
      rfl

theorem found_parseList_iff {ts rest : List Token} {o : Operand} :
    Found (parseList source ts) o rest ↔
      ∃ t mid items, ts = t :: mid ∧ t.lexeme = .opening ∧ o = .list items ∧
        ReadsItems source mid items rest := by
  constructor
  · rintro ⟨shorter, read⟩
    unfold parseList at read
    split at read
    · cases read
    · next t mid =>
      split at read
      · next opens =>
        cases items : parseItems source mid with
        | error fault => rw [items] at read; cases read
        | ok reading =>
          rcases reading with ⟨items, after, h⟩
          rw [items] at read
          cases read
          exact ⟨t, mid, _, rfl, opens, rfl, found_parseItems_iff.mp ⟨h, ‹_›⟩⟩
      · cases read
  · rintro ⟨t, mid, items, rfl, opens, rfl, reads⟩
    obtain ⟨shorter, read⟩ := found_parseItems_iff.mpr reads
    refine ⟨Nat.lt_succ_of_lt shorter, ?_⟩
    simp only [parseList, opens, if_true, read]
    rfl

theorem found_parseComparison_iff {field : String} {ts rest : List Token} {f : Filter} :
    Found (parseComparison source field ts) f rest ↔
      ∃ c, f = .test c ∧ ReadsComparison source field ts c rest := by
  constructor
  · rintro ⟨shorter, read⟩
    unfold parseComparison at read
    cases relation : parseRelation field (skipNot ts).2 with
    | error fault => rw [relation] at read; cases read
    | ok reading =>
      rcases reading with ⟨r, mid, h⟩
      rw [relation] at read
      simp only [bind, Except.bind] at read
      split at read
      · next is => cases read; exact ⟨_, rfl, .nothing ⟨h, relation⟩ is⟩
      · next takes =>
        cases alone : r.takesList with
        | true =>
          cases list : parseList source mid with
          | error fault => simp only [alone, if_true, list] at read; cases read
          | ok reading =>
            rcases reading with ⟨o, after, h'⟩
            simp only [alone, if_true, list] at read
            cases read
            obtain ⟨t, inside, items, rfl, opens, rfl, reads⟩ := found_parseList_iff.mp ⟨h', list⟩
            exact ⟨_, rfl, .list ⟨h, relation⟩ alone opens reads⟩
        | false =>
          cases operand : parseOperand source mid with
          | error fault => simp only [alone, operand] at read; cases read
          | ok reading =>
            rcases reading with ⟨o, after, h'⟩
            simp only [alone, operand] at read
            cases read
            exact ⟨_, rfl, .single ⟨h, relation⟩ (by simpa using takes) alone
              (found_parseOperand_iff.mp ⟨h', operand⟩)⟩
  · rintro ⟨c, rfl, reads⟩
    have bound := length_skipNot_le ts
    cases reads with
    | @nothing rest r relation is =>
      obtain ⟨shorter, read⟩ := relation
      refine ⟨by omega, ?_⟩
      simp only [parseComparison, read, bind, Except.bind, is, if_true]
      rfl
    | @list mid rest t r items relation is opens operands =>
      obtain ⟨shorter, read⟩ := relation
      have takes : r.takesNothing = false := by
        cases r <;> first | rfl | cases is
      obtain ⟨shorter', read'⟩ :=
        found_parseList_iff.mpr ⟨t, mid, items, rfl, opens, rfl, operands⟩
      refine ⟨by omega, ?_⟩
      simp only [parseComparison, read, bind, Except.bind, takes, is, if_true, read']
      rfl
    | @single mid rest r o relation takes alone operand =>
      obtain ⟨shorter, read⟩ := relation
      obtain ⟨shorter', read'⟩ := found_parseOperand_iff.mpr operand
      refine ⟨by omega, ?_⟩
      simp only [parseComparison, read, bind, Except.bind, takes, alone, read']
      rfl

/-- A chain read to the given end. -/
def Chained {ts : List Token}
    (outcome : Except FilterFault (Filter × { rest : List Token // rest.length ≤ ts.length }))
    (f : Filter) (rest : List Token) : Prop :=
  ∃ bound, outcome = .ok (f, ⟨rest, bound⟩)

theorem found_parseOr_iff {ts rest : List Token} {f : Filter} :
    Found (parseOr source ts) f rest ↔
      ∃ left mid, Found (parseAnd source ts) left mid ∧
        Chained (parseOrs source left mid) f rest := by
  rw [parseOr]
  constructor
  · rintro ⟨shorter, read⟩
    cases first : parseAnd source ts with
    | error fault => rw [first] at read; cases read
    | ok reading =>
      rcases reading with ⟨left, mid, h⟩
      cases chain : parseOrs source left mid with
      | error fault => simp only [first, bind, Except.bind, chain] at read; cases read
      | ok pair =>
        rcases pair with ⟨whole, after, h'⟩
        simp only [first, bind, Except.bind, chain] at read
        cases read
        exact ⟨left, mid, ⟨h, rfl⟩, h', chain⟩
  · rintro ⟨left, mid, ⟨shorter, first⟩, bound, chain⟩
    refine ⟨by omega, ?_⟩
    simp only [first, bind, Except.bind, chain]
    rfl

theorem found_parseAnd_iff {ts rest : List Token} {f : Filter} :
    Found (parseAnd source ts) f rest ↔
      ∃ left mid, Found (parseNot source ts) left mid ∧
        Chained (parseAnds source left mid) f rest := by
  rw [parseAnd]
  constructor
  · rintro ⟨shorter, read⟩
    cases first : parseNot source ts with
    | error fault => rw [first] at read; cases read
    | ok reading =>
      rcases reading with ⟨left, mid, h⟩
      cases chain : parseAnds source left mid with
      | error fault => simp only [first, bind, Except.bind, chain] at read; cases read
      | ok pair =>
        rcases pair with ⟨whole, after, h'⟩
        simp only [first, bind, Except.bind, chain] at read
        cases read
        exact ⟨left, mid, ⟨h, rfl⟩, h', chain⟩
  · rintro ⟨left, mid, ⟨shorter, first⟩, bound, chain⟩
    refine ⟨by omega, ?_⟩
    simp only [first, bind, Except.bind, chain]
    rfl

theorem chained_parseOrs_iff {left f : Filter} {ts rest : List Token} :
    Chained (parseOrs source left ts) f rest ↔
      (ts.head?.bind orJoiner? = none ∧ f = left ∧ rest = ts) ∨
        ∃ t more joined right mid, ts = t :: more ∧ orJoiner? t = some joined ∧
          Found (parseAnd source more) right mid ∧
            Chained (parseOrs source (joined left right) mid) f rest := by
  cases ts with
  | nil =>
    rw [parseOrs]
    constructor
    · rintro ⟨bound, read⟩; cases read; exact .inl ⟨rfl, rfl, rfl⟩
    · rintro (⟨-, rfl, rfl⟩ | ⟨t, more, joined, right, mid, same, -⟩)
      · exact ⟨_, rfl⟩
      · cases same
  | cons t ts =>
    rw [parseOrs]
    cases is : orJoiner? t with
    | none =>
      constructor
      · rintro ⟨bound, read⟩; cases read; exact .inl ⟨is, rfl, rfl⟩
      · rintro (⟨-, rfl, rfl⟩ | ⟨t, more, joined, right, mid, same, joins, -⟩)
        · exact ⟨_, rfl⟩
        · cases same; rw [is] at joins; cases joins
    | some joined =>
      constructor
      · rintro ⟨bound, read⟩
        cases next : parseAnd source ts with
        | error fault => simp only [next] at read; cases read
        | ok reading =>
          rcases reading with ⟨right, mid, h⟩
          cases chain : parseOrs source (joined left right) mid with
          | error fault => simp only [next, bind, Except.bind, chain] at read; cases read
          | ok pair =>
            rcases pair with ⟨whole, after, h'⟩
            simp only [next, bind, Except.bind, chain] at read
            cases read
            exact .inr ⟨t, ts, joined, right, mid, rfl, is, ⟨h, next⟩, h', chain⟩
      · rintro (⟨ends, -⟩ | ⟨t, more, joined, right, mid, same, joins, ⟨h, next⟩, h', chain⟩)
        · rw [List.head?_cons, Option.bind_some, is] at ends; cases ends
        · cases same
          rw [is] at joins
          cases joins
          refine ⟨by simp only [List.length_cons]; omega, ?_⟩
          simp only [next, bind, Except.bind, chain]
          rfl

theorem chained_parseAnds_iff {left f : Filter} {ts rest : List Token} :
    Chained (parseAnds source left ts) f rest ↔
      (ts.head?.any isAnd = false ∧ f = left ∧ rest = ts) ∨
        ∃ t more right mid, ts = t :: more ∧ isAnd t = true ∧
          Found (parseNot source more) right mid ∧
            Chained (parseAnds source (join .and left right) mid) f rest := by
  cases ts with
  | nil =>
    rw [parseAnds]
    constructor
    · rintro ⟨bound, read⟩; cases read; exact .inl ⟨rfl, rfl, rfl⟩
    · rintro (⟨-, rfl, rfl⟩ | ⟨t, more, right, mid, same, -⟩)
      · exact ⟨_, rfl⟩
      · cases same
  | cons t ts =>
    rw [parseAnds]
    cases is : isAnd t with
    | false =>
      constructor
      · rintro ⟨bound, read⟩; cases read; exact .inl ⟨is, rfl, rfl⟩
      · rintro (⟨-, rfl, rfl⟩ | ⟨t, more, right, mid, same, joins, -⟩)
        · exact ⟨_, rfl⟩
        · cases same; rw [is] at joins; cases joins
    | true =>
      constructor
      · rintro ⟨bound, read⟩
        cases next : parseNot source ts with
        | error fault => simp only [next, if_true] at read; cases read
        | ok reading =>
          rcases reading with ⟨right, mid, h⟩
          cases chain : parseAnds source (join .and left right) mid with
          | error fault => simp only [next, bind, Except.bind, if_true, chain] at read; cases read
          | ok pair =>
            rcases pair with ⟨whole, after, h'⟩
            simp only [next, bind, Except.bind, if_true, chain] at read
            cases read
            exact .inr ⟨t, ts, right, mid, rfl, is, ⟨h, next⟩, h', chain⟩
      · rintro (⟨ends, -⟩ | ⟨t, more, right, mid, same, -, ⟨h, next⟩, h', chain⟩)
        · rw [List.head?_cons, Option.any_some, is] at ends; cases ends
        · cases same
          refine ⟨by simp only [List.length_cons]; omega, ?_⟩
          simp only [next, bind, Except.bind, if_true, chain]
          rfl

theorem found_parseNot_iff {ts rest : List Token} {f : Filter} :
    Found (parseNot source ts) f rest ↔
      (∃ t next more inner, ts = t :: next :: more ∧ isNegation t next = true ∧
        f = negate inner ∧ Found (parseNot source (next :: more)) inner rest) ∨
      ((∀ t next more, ts = t :: next :: more → isNegation t next = false) ∧
        Found (parsePrimary source ts) f rest) := by
  match ts with
  | [] =>
    rw [parseNot]
    · constructor
      · intro found
        exact .inr ⟨by simp, found⟩
      · rintro (⟨t, next, more, inner, same, -⟩ | ⟨-, found⟩)
        · cases same
        · exact found
    · intro t next rest same; cases same
  | [t] =>
    rw [parseNot]
    · constructor
      · intro found
        exact .inr ⟨by simp, found⟩
      · rintro (⟨t, next, more, inner, same, -⟩ | ⟨-, found⟩)
        · cases same
        · exact found
    · intro t next rest same; cases same
  | t :: next :: more =>
    rw [parseNot]
    cases is : isNegation t next with
    | true =>
      constructor
      · rintro ⟨shorter, read⟩
        cases inner : parseNot source (next :: more) with
        | error fault => simp only [inner, if_true] at read; cases read
        | ok reading =>
          rcases reading with ⟨inside, after, h⟩
          simp only [inner, bind, Except.bind, if_true] at read
          cases read
          exact .inl ⟨t, next, more, inside, rfl, is, rfl, h, inner⟩
      · rintro (⟨t, next, more, inside, same, -, rfl, h, inner⟩ | ⟨bare, -⟩)
        · cases same
          refine ⟨Nat.lt_succ_of_lt h, ?_⟩
          simp only [inner, bind, Except.bind, if_true]
          rfl
        · rw [bare t next more rfl] at is; cases is
    | false =>
      constructor
      · intro found
        refine .inr ⟨?_, found⟩
        intro t next more same
        cases same
        exact is
      · rintro (⟨t, next, more, inside, same, negated, -⟩ | ⟨-, found⟩)
        · cases same; rw [is] at negated; cases negated
        · exact found

theorem found_parsePrimary_iff {ts rest : List Token} {f : Filter} :
    Found (parsePrimary source ts) f rest ↔
      (∃ t more u, ts = t :: more ∧ t.lexeme = .opening ∧
        Found (parseOr source more) f (u :: rest) ∧ u.lexeme = .closing) ∨
      (∃ t more field, ts = t :: more ∧ t.lexeme = .word field ∧
        Found (parseComparison source field more) f rest) := by
  cases ts with
  | nil =>
    rw [parsePrimary]
    constructor
    · rintro ⟨shorter, read⟩; cases read
    · rintro (⟨t, more, u, same, -⟩ | ⟨t, more, field, same, -⟩) <;> cases same
  | cons t ts =>
    rw [parsePrimary]
    constructor
    · rintro ⟨shorter, read⟩
      split at read
      · next opens =>
        cases inner : parseOr source ts with
        | error fault => rw [inner] at read; cases read
        | ok reading =>
          rcases reading with ⟨inside, after, h⟩
          simp only [inner, bind, Except.bind] at read
          split at read
          · cases read
          · next u more h =>
            split at read
            · next closes => cases read; exact .inl ⟨t, ts, u, rfl, opens, ⟨h, inner⟩, closes⟩
            · cases read
      · next field is =>
        cases reads : parseComparison source field ts with
        | error fault => rw [reads] at read; cases read
        | ok reading =>
          rcases reading with ⟨c, after, h⟩
          simp only [reads, bind, Except.bind] at read
          cases read
          exact .inr ⟨t, ts, field, rfl, is, h, reads⟩
      · cases read
    · rintro (⟨t, more, u, same, opens, ⟨h, inner⟩, closes⟩ | ⟨t, more, field, same, is, h, reads⟩)
      · cases same
        rcases t with ⟨found, start, stop⟩
        cases opens
        refine ⟨by simp only [List.length_cons] at h ⊢; omega, ?_⟩
        simp only [inner, bind, Except.bind, closes, if_true]
        rfl
      · cases same
        rcases t with ⟨found, start, stop⟩
        cases is
        refine ⟨Nat.lt_succ_of_lt h, ?_⟩
        simp only [reads, bind, Except.bind]
        rfl

/-- What parsing at a rank finds. -/
def Parses (source : Source) : Rank → List Token → Filter → List Token → Prop
  | .or, ts, f, rest => Found (parseOr source ts) f rest
  | .orRest left, ts, f, rest => Chained (parseOrs source left ts) f rest
  | .and, ts, f, rest => Found (parseAnd source ts) f rest
  | .andRest left, ts, f, rest => Chained (parseAnds source left ts) f rest
  | .not, ts, f, rest => Found (parseNot source ts) f rest
  | .primary, ts, f, rest => Found (parsePrimary source ts) f rest

theorem Derives.parses {rank : Rank} {ts rest : List Token} {f : Filter}
    (derives : Derives source rank ts f rest) : Parses source rank ts f rest := by
  induction derives with
  | or _ _ first chain => exact found_parseOr_iff.mpr ⟨_, _, first, chain⟩
  | orEnd ends => exact chained_parseOrs_iff.mpr (.inl ⟨ends, rfl, rfl⟩)
  | orMore is _ _ next chain =>
    exact chained_parseOrs_iff.mpr (.inr ⟨_, _, _, _, _, rfl, is, next, chain⟩)
  | and _ _ first chain => exact found_parseAnd_iff.mpr ⟨_, _, first, chain⟩
  | andEnd ends => exact chained_parseAnds_iff.mpr (.inl ⟨ends, rfl, rfl⟩)
  | andMore is _ _ next chain =>
    exact chained_parseAnds_iff.mpr (.inr ⟨_, _, _, _, rfl, is, next, chain⟩)
  | negation is _ inner => exact found_parseNot_iff.mpr (.inl ⟨_, _, _, _, rfl, is, rfl, inner⟩)
  | plain bare _ inner => exact found_parseNot_iff.mpr (.inr ⟨bare, inner⟩)
  | group opens _ closes inner =>
    exact found_parsePrimary_iff.mpr (.inl ⟨_, _, _, rfl, opens, inner, closes⟩)
  | comparison is reads =>
    exact found_parsePrimary_iff.mpr
      (.inr ⟨_, _, _, rfl, is, found_parseComparison_iff.mpr ⟨_, rfl, reads⟩⟩)

def Rank.height : Rank → Nat
  | .or => 4
  | .and => 3
  | .not => 2
  | .primary => 1
  | .orRest _ => 0
  | .andRest _ => 0

theorem derives_of_parses {r : Rank} {ts rest : List Token} {f : Filter}
    (parses : Parses source r ts f rest) : Derives source r ts f rest := by
  -- the induction follows the parser: every call has fewer tokens or a lower rank
  induction size : 5 * ts.length + r.height using Nat.strongRecOn
    generalizing r ts f rest with
  | ind n ih =>
    subst size
    cases r with
    | or =>
      obtain ⟨left, mid, first, chain⟩ := found_parseOr_iff.mp parses
      have shorter := first.1
      exact .or (ih _ (by simp [Rank.height]) (r := .and) first rfl)
        (ih _ (by simp only [Rank.height]; omega) (r := .orRest left) chain rfl)
    | orRest left =>
      obtain ⟨ends, rfl, rfl⟩ | ⟨t, more, joined, right, mid, rfl, is, next, chain⟩ :=
        chained_parseOrs_iff.mp parses
      · exact .orEnd ends
      · have shorter := next.1
        exact .orMore is
          (ih _ (by simp only [Rank.height, List.length_cons]; omega) (r := .and) next rfl)
          (ih _ (by simp only [Rank.height, List.length_cons]; omega)
            (r := .orRest (joined left right)) chain rfl)
    | and =>
      obtain ⟨left, mid, first, chain⟩ := found_parseAnd_iff.mp parses
      have shorter := first.1
      exact .and (ih _ (by simp [Rank.height]) (r := .not) first rfl)
        (ih _ (by simp only [Rank.height]; omega) (r := .andRest left) chain rfl)
    | andRest left =>
      obtain ⟨ends, rfl, rfl⟩ | ⟨t, more, right, mid, rfl, is, next, chain⟩ :=
        chained_parseAnds_iff.mp parses
      · exact .andEnd ends
      · have shorter := next.1
        exact .andMore is
          (ih _ (by simp only [Rank.height, List.length_cons]; omega) (r := .not) next rfl)
          (ih _ (by simp only [Rank.height, List.length_cons]; omega)
            (r := .andRest (join .and left right)) chain rfl)
    | not =>
      obtain ⟨t, next, more, inner, rfl, is, rfl, found⟩ | ⟨bare, found⟩ :=
        found_parseNot_iff.mp parses
      · exact .negation is
          (ih _ (by simp only [Rank.height, List.length_cons]; omega) (r := .not) found rfl)
      · exact .plain bare (ih _ (by simp [Rank.height]) (r := .primary) found rfl)
    | primary =>
      obtain ⟨t, more, u, rfl, opens, inner, closes⟩ | ⟨t, more, field, rfl, is, found⟩ :=
        found_parsePrimary_iff.mp parses
      · exact .group opens
          (ih _ (by simp only [Rank.height, List.length_cons]; omega) (r := .or) inner rfl)
          closes
      · obtain ⟨c, rfl, reads⟩ := found_parseComparison_iff.mp found
        exact .comparison is reads

theorem ofTokens_eq_ok_iff {ts : List Token} {f : Filter} :
    ofTokens source ts = .ok f ↔ Derives source .or ts f [] := by
  constructor
  · intro read
    unfold ofTokens at read
    cases whole : parseOr source ts with
    | error fault => rw [whole] at read; cases read
    | ok reading =>
      rcases reading with ⟨g, rest, h⟩
      simp only [whole, bind, Except.bind] at read
      split at read
      · cases read; exact derives_of_parses (r := .or) ⟨h, whole⟩
      · cases read
  · intro derives
    obtain ⟨shorter, read⟩ := derives.parses
    simp only [ofTokens, read, bind, Except.bind]
    rfl

end StoreGateway.Filter

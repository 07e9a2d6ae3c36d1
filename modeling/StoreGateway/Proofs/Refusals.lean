import StoreGateway.Proofs.Operands

/-!
Texts that read as no filter, wherever they stand. One of them spoils every negation, every group and
every chain that it is part of.
-/

namespace StoreGateway.Filter

variable {params : Params} {source : Source}

theorem Found.unique {α β ε : Type} {given : List β} {outcome : Except ε (Reading α given)}
    {a b : α} {rest rest' : List β} (first : Found outcome a rest) (second : Found outcome b rest') :
    a = b ∧ rest = rest' := by
  obtain ⟨shorter, read⟩ := first
  obtain ⟨shorter', read'⟩ := second
  rw [read] at read'
  cases read'
  exact ⟨rfl, rfl⟩

theorem Chained.unique {ts : List Token}
    {outcome : Except FilterFault (Filter × { rest : List Token // rest.length ≤ ts.length })}
    {f g : Filter} {rest rest' : List Token} (first : Chained outcome f rest)
    (second : Chained outcome g rest') : f = g ∧ rest = rest' := by
  obtain ⟨shorter, read⟩ := first
  obtain ⟨shorter', read'⟩ := second
  rw [read] at read'
  cases read'
  exact ⟨rfl, rfl⟩

theorem Derives.unique {rank : Rank} {ts rest rest' : List Token} {f g : Filter}
    (first : Derives source rank ts f rest) (second : Derives source rank ts g rest') :
    f = g ∧ rest = rest' := by
  have found := first.parses
  have found' := second.parses
  cases rank with
  | or => exact Found.unique found found'
  | orRest left => exact Chained.unique found found'
  | and => exact Found.unique found found'
  | andRest left => exact Chained.unique found found'
  | not => exact Found.unique found found'
  | primary => exact Found.unique found found'

theorem Spelled.unique {text : List Char} {ts us : List Token} (first : Spelled text ts)
    (second : Spelled text us) : ts = us :=
  Except.ok.inj (first.tokensFrom.symm.trans second.tokensFrom)

/-- A text at whose place no filter of the rank is read, whatever follows it. -/
structure Refuses (params : Params) (rank : Rank) (text : List Char) : Prop where
  trimmed : Trimmed text
  never : ∃ ts, Spelled text ts ∧ ∀ pre post rest f after,
    ¬ Derives ⟨pre ++ text ++ post, params⟩ rank (moved (bytes pre) ts rest) f after

variable {text : List Char}

theorem Refuses.toAnd (refuses : Refuses params .not text) : Refuses params .and text := by
  obtain ⟨trimmed, ts, spelled, never⟩ := refuses
  refine ⟨trimmed, ts, spelled, fun pre post rest f after derives => ?_⟩
  cases derives with
  | and first chain => exact never pre post rest _ _ first

theorem Refuses.toOr (refuses : Refuses params .and text) : Refuses params .or text := by
  obtain ⟨trimmed, ts, spelled, never⟩ := refuses
  refine ⟨trimmed, ts, spelled, fun pre post rest f after derives => ?_⟩
  cases derives with
  | or first chain => exact never pre post rest _ _ first

theorem Refuses.parse (refuses : Refuses params .or text) (parsed : Option Filter) :
    Filter.parse params (String.ofList text) ≠ .ok parsed := by
  obtain ⟨trimmed, ts, spelled, never⟩ := refuses
  intro read
  unfold Filter.parse at read
  rw [String.toList_ofList, trimChars_of_trimmed trimmed] at read
  simp only [trimmed.present, if_false, spelled.tokensFrom, bind, Except.bind] at read
  cases found : ofTokens ⟨text, params⟩ ts with
  | error fault =>
    rw [found] at read
    cases read
  | ok f =>
    have derives := ofTokens_eq_ok_iff.mp found
    have here := never [] [] [] f []
    rw [List.nil_append, List.append_nil, bytes_nil, moved, Token.shift_none,
      List.append_nil] at here
    exact here derives

theorem Derives.group_cases {t : Token} {ts after : List Token} {f : Filter}
    (opens : t.lexeme = .opening) (derives : Derives source .not (t :: ts) f after) :
    ∃ u, Derives source .or ts f (u :: after) := by
  cases derives with
  | negation is inner =>
    rw [isNegation, Token.isKeyword, opens] at is
    cases is
  | plain bare inner =>
    cases inner with
    | group opens inner closes => exact ⟨_, inner⟩
    | comparison is reads =>
      rw [opens] at is
      cases is

theorem Derives.negation_cases {t next : Token} {ts after : List Token} {f : Filter}
    (is : isNegation t next = true) (derives : Derives source .not (t :: next :: ts) f after) :
    ∃ g, Derives source .not (next :: ts) g after := by
  cases derives with
  | negation _ inner => exact ⟨_, inner⟩
  | plain bare inner =>
    rw [bare t next ts rfl] at is
    cases is

theorem Refuses.group (refuses : Refuses params .or text) :
    Refuses params .not ('(' :: (text ++ [')'])) := by
  obtain ⟨trimmed, ts, spelled, never⟩ := refuses
  refine ⟨Trimmed.parenthesised text, _,
    spelled_opening (spelled.append (spelled_closing spelled_nil) fun post _ => apart_closing _),
    fun pre post rest f after derives => ?_⟩
  rw [moved_cons] at derives
  obtain ⟨u, inner⟩ := Derives.group_cases rfl derives
  have here := never (pre ++ ['(']) (')' :: post)
    (moved (bytes pre + (1 + bytes text)) [⟨.closing, 0, 1⟩] rest) f (u :: after)
  have same : pre ++ ['('] ++ text ++ ')' :: post = pre ++ '(' :: (text ++ [')']) ++ post := by
    simp
  have size : bytes (pre ++ ['(']) = bytes pre + 1 := by
    rw [bytes_append]
    rfl
  rw [same, size] at here
  refine here ?_
  simpa using inner

/-- Behind a word of negation before a parenthesis, what is in the parentheses is read. -/
theorem Refuses.negatedGroup {word : List Char} (refuses : Refuses params .or text) (is : IsWord word)
    (keyword : Text.asciiLower (String.ofList word) = "not") :
    Refuses params .not (word ++ ' ' :: '(' :: (text ++ [')'])) := by
  obtain ⟨us, inside, -⟩ := refuses.never
  obtain ⟨trimmed, ts, spelled, never⟩ := refuses.group
  have starts := spelled_opening
    (inside.append (spelled_closing spelled_nil) fun post _ => apart_closing _)
  cases spelled.unique starts
  have whole := is.trimmed.join trimmed [' ']
  rw [List.append_assoc] at whole
  refine ⟨whole, _, (spelled_word is).blank_append spelled, fun pre post rest f after derives => ?_⟩
  rw [moved_append, moved_shift] at derives
  have negation : isNegation (Token.shift (bytes pre) ⟨.word (String.ofList word), 0, bytes word⟩)
      (Token.shift (bytes pre + (bytes word + 1)) ⟨.opening, 0, 1⟩) = true := by
    simp [isNegation, isKeyword_word _ _ keyword, Lexeme.isSymbol]
  obtain ⟨g, inner⟩ := Derives.negation_cases negation derives
  have here := never (pre ++ (word ++ [' '])) post rest g after
  have same : pre ++ (word ++ [' ']) ++ '(' :: (text ++ [')']) ++ post =
      pre ++ (word ++ ' ' :: '(' :: (text ++ [')'])) ++ post := by
    simp
  have size : bytes (pre ++ (word ++ [' '])) = bytes pre + (bytes word + 1) := by
    rw [bytes_append, bytes_append]
    rfl
  rw [same, size] at here
  exact here inner

/-- What is known of a chain that is read: its first item is, and the one behind each of its words. -/
structure Unlinks (word : List Char) (item whole : Rank) (rest : Filter → Rank) : Prop where
  start {source : Source} {ts after : List Token} {f : Filter} :
    Derives source whole ts f after → ∃ left mid, Derives source item ts left mid ∧
      Derives source (rest left) mid f after
  step {source : Source} {t : Token} {ts after : List Token} {left f : Filter} :
    t.lexeme = .word (String.ofList word) → Derives source (rest left) (t :: ts) f after →
      ∃ right mid left', Derives source item ts right mid ∧ Derives source (rest left') mid f after

theorem unlinks_and {word : List Char} (keyword : Text.asciiLower (String.ofList word) = "and") :
    Unlinks word .not .and .andRest where
  start derives := by
    cases derives with
    | and first chain => exact ⟨_, _, first, chain⟩
  step {_ t} _ _ _ _ is derives := by
    have joins : isAnd t = true := by
      rw [isAnd, isKeyword_of_word is keyword]
      rfl
    cases derives with
    | andEnd ends =>
      rw [List.head?_cons, Option.any_some, joins] at ends
      cases ends
    | andMore _ next chain => exact ⟨_, _, _, next, chain⟩

theorem unlinks_or {word : List Char} (keyword : Text.asciiLower (String.ofList word) = "or") :
    Unlinks word .and .or .orRest where
  start derives := by
    cases derives with
    | or first chain => exact ⟨_, _, first, chain⟩
  step {_ t} _ _ _ _ is derives := by
    have joins : orJoiner? t = some (join .or) := by
      rw [orJoiner?, isKeyword_of_word is keyword]
      rfl
    cases derives with
    | orEnd ends =>
      rw [List.head?_cons, Option.bind_some, joins] at ends
      cases ends
    | orMore _ next chain => exact ⟨_, _, _, next, chain⟩

variable {word : List Char} {op : Connective} {item whole : Rank} {rest : Filter → Rank}

/-- A text of a chain, which is read as its filter or not at all. -/
def Settled (params : Params) (item : Rank) (next : List Char × Filter) : Prop :=
  Reads params item next.1 next.2 ∨ Refuses params item next.1

theorem Settled.spelled {next : List Char × Filter} (settled : Settled params item next) :
    Trimmed next.1 ∧ ∃ ts, Spelled next.1 ts := by
  rcases settled with reads | refuses
  · obtain ⟨trimmed, ts, spelled, -⟩ := reads
    exact ⟨trimmed, ts, spelled⟩
  · obtain ⟨trimmed, ts, spelled, -⟩ := refuses
    exact ⟨trimmed, ts, spelled⟩

theorem Settled.of_derives {next : List Char × Filter} (settled : Settled params item next)
    {us : List Token} (spelled : Spelled next.1 us) {pre post : List Char} {tail after : List Token}
    {f : Filter} (derives : Derives ⟨pre ++ next.1 ++ post, params⟩ item
      (moved (bytes pre) us tail) f after) :
    ¬ Refuses params item next.1 ∧ (Stops item tail → after = tail) := by
  have reads : ¬ Refuses params item next.1 := by
    rintro ⟨-, us', spelled', never⟩
    cases spelled.unique spelled'
    exact never pre post tail f after derives
  refine ⟨reads, fun stops => ?_⟩
  obtain ⟨-, us', spelled', read⟩ := settled.resolve_right reads
  cases spelled.unique spelled'
  exact ((read pre post tail stops).unique derives).2.symm

theorem spelled_chainText (is : IsWord word) (more : List (List Char × Filter))
    (each : ∀ next ∈ more, Settled params item next) : ∃ ts, Spelled (chainText word more) ts := by
  induction more with
  | nil => exact ⟨[], spelled_nil⟩
  | cons next more ih =>
    obtain ⟨-, us, spelled⟩ := (each next List.mem_cons_self).spelled
    obtain ⟨vs, others⟩ := ih fun other member => each other (List.mem_cons_of_mem next member)
    exact ⟨_, (spelled_blank ((spelled_word is).blank_append spelled)).append others
      fun post apart => chain_apart more post apart⟩

theorem Links.stops_chainText (links : Links word op item whole rest) (next : List Char × Filter)
    (more : List (List Char × Filter)) (each : ∀ other ∈ next :: more, Settled params item other)
    {ts : List Token} (spelled : Spelled (chainText word (next :: more)) ts) (d : Nat)
    (tail : List Token) : Stops item (moved d ts tail) := by
  obtain ⟨-, us, here⟩ := (each next List.mem_cons_self).spelled
  obtain ⟨vs, others⟩ := spelled_chainText links.isWord more fun other member =>
    each other (List.mem_cons_of_mem next member)
  have all := (spelled_blank ((spelled_word links.isWord).blank_append here)).append others
    fun post apart => chain_apart more post apart
  cases spelled.unique all
  exact links.stops_word rfl

/-- The rest of a chain is not read if one of its texts is not. -/
theorem Unlinks.never_rest (unlinks : Unlinks word item whole rest)
    (links : Links word op item whole rest) (more : List (List Char × Filter))
    (each : ∀ next ∈ more, Settled params item next)
    (spoiled : ∃ next ∈ more, Refuses params item next.1) {ts : List Token}
    (spelled : Spelled (chainText word more) ts) (pre post : List Char) (left f : Filter)
    (tail after : List Token) :
    ¬ Derives ⟨pre ++ chainText word more ++ post, params⟩ (rest left)
      (moved (bytes pre) ts tail) f after := by
  -- the induction is on the texts: those before it are read as they are, so that the chain goes on
  -- behind them
  induction more generalizing pre left ts with
  | nil =>
    obtain ⟨next, member, -⟩ := spoiled
    cases member
  | cons next more ih =>
    have later : ∀ other ∈ more, Settled params item other := fun other member =>
      each other (List.mem_cons_of_mem next member)
    obtain ⟨-, us, here⟩ := (each next List.mem_cons_self).spelled
    obtain ⟨vs, others⟩ := spelled_chainText links.isWord more later
    have all := (spelled_blank ((spelled_word links.isWord).blank_append here)).append others
      fun post apart => chain_apart more post apart
    cases spelled.unique all
    intro derives
    have size : bytes (pre ++ ' ' :: (word ++ ' ' :: next.1)) =
        bytes pre + bytes (' ' :: (word ++ ' ' :: next.1)) := bytes_append _ _
    have size' : bytes (pre ++ ' ' :: (word ++ [' '])) = bytes pre + (1 + (bytes word + 1)) := by
      rw [bytes_append, bytes_cons, bytes_append]
      rfl
    rw [moved_append, moved_shift, moved_shift, List.singleton_append, moved_cons,
      moved_shift] at derives
    obtain ⟨right, mid, left', first, chain⟩ := unlinks.step rfl derives
    rw [← split_behind] at chain
    rw [← split_first, Nat.add_assoc, ← size'] at first
    obtain ⟨reads, ends⟩ := (each next List.mem_cons_self).of_derives here first
    obtain ⟨other, member, spoils⟩ := spoiled
    rcases List.mem_cons.mp member with rfl | inside
    · exact reads spoils
    · obtain ⟨second, others', rfl⟩ := List.exists_cons_of_ne_nil (List.ne_nil_of_mem inside)
      cases ends (links.stops_chainText second others' later others _ tail)
      rw [← size] at chain
      exact ih later ⟨other, inside, spoils⟩ others _ _ chain

/-- A chain with a text that is not read is not read. -/
theorem Unlinks.refuses (unlinks : Unlinks word item whole rest)
    (links : Links word op item whole rest) (first : List Char × Filter)
    (more : List (List Char × Filter)) (each : ∀ next ∈ first :: more, Settled params item next)
    (spoiled : ∃ next ∈ first :: more, Refuses params item next.1) :
    Refuses params whole (first.1 ++ chainText word more) := by
  have later : ∀ other ∈ more, Settled params item other := fun other member =>
    each other (List.mem_cons_of_mem first member)
  obtain ⟨trimmed, us, here⟩ := (each first List.mem_cons_self).spelled
  obtain ⟨vs, others⟩ := spelled_chainText links.isWord more later
  refine ⟨trimmed.chain more fun next member => (later next member).spelled.1, _,
    here.append others fun post apart => chain_apart more post apart,
    fun pre post tail f after derives => ?_⟩
  rw [moved_append, moved_shift] at derives
  obtain ⟨left, mid, start, chain⟩ := unlinks.start derives
  have same : pre ++ (first.1 ++ chainText word more) ++ post =
      pre ++ first.1 ++ (chainText word more ++ post) := by
    simp
  have same' : pre ++ (first.1 ++ chainText word more) ++ post =
      (pre ++ first.1) ++ chainText word more ++ post := by
    simp
  rw [same] at start
  rw [same'] at chain
  obtain ⟨reads, ends⟩ := (each first List.mem_cons_self).of_derives here start
  obtain ⟨other, member, spoils⟩ := spoiled
  rcases List.mem_cons.mp member with rfl | inside
  · exact reads spoils
  · obtain ⟨second, others', rfl⟩ := List.exists_cons_of_ne_nil (List.ne_nil_of_mem inside)
    cases ends (links.stops_chainText second others' later others _ tail)
    rw [← bytes_append] at chain
    exact unlinks.never_rest links _ later ⟨other, inside, spoils⟩ others _ _ _ _ _ _ chain

/-- A literal that is no word of the language. -/
structure Bland (raw : String) : Prop where
  no_relation : relationOfWord? raw = none
  not_is : Text.lowerCase raw ≠ "is"
  not_not : Text.asciiLower raw ≠ "not"

def literalMarks : List Char := "'0123456789".toList

theorem mem_literalMarks {c : Char} (digit : c.isDigit = true) : c ∈ literalMarks := by
  have bounds := Char.isDigit_iff_toNat.mp digit
  have nine : '9'.toNat = 57 := rfl
  have zero : '0'.toNat = 48 := rfl
  have all : ∀ n < 58, 48 ≤ n → Char.ofNat n ∈ literalMarks := by decide
  have here := all c.toNat (by omega) (by omega)
  rwa [Char.ofNat_toNat] at here

def relationWords : List String :=
  ["eq", "ne", "neq", "gt", "ge", "gte", "lt", "le", "lte", "in", "like", "is", "not"]

theorem literalMark_plain : ∀ c ∈ literalMarks, Text.lowerCaseChar c = [c] ∧ c.toLower = c ∧
    ∀ word ∈ relationWords, c ∉ word.toList := by
  have plain : (literalMarks.all fun c => decide (Text.lowerCaseChar c = [c]) &&
      decide (c.toLower = c) && relationWords.all fun word => decide (c ∉ word.toList)) = true := by
    decide
  simpa [and_assoc] using plain

theorem bland_of_mark {raw : String} {c : Char} (member : c ∈ raw.toList)
    (mark : c ∈ literalMarks) : Bland raw := by
  obtain ⟨lower, ascii, absent⟩ := literalMark_plain c mark
  have kept : c ∈ (Text.lowerCase raw).toList := by
    rw [Text.lowerCase, String.toList_ofList, List.mem_flatMap]
    exact ⟨c, member, by rw [lower]; exact List.mem_singleton_self c⟩
  have kept' : c ∈ (Text.asciiLower raw).toList := by
    rw [Text.asciiLower, String.toList_ofList]
    exact List.mem_map.mpr ⟨c, member, ascii⟩
  refine ⟨?_, fun is => absent "is" (by decide) (is ▸ kept), fun is =>
    absent "not" (by decide) (is ▸ kept')⟩
  unfold relationOfWord?
  split
  case h_12 => rfl
  all_goals
    next is =>
      rw [is] at kept
      exact absurd kept (absent _ (by decide))

/-- Every value is written as a literal that is no word of the language. -/
theorem bland_text (v : Value) : Bland (Literal.text v) := by
  have quoted (s : String) : Bland (Literal.quote s) := by
    refine @bland_of_mark _ '\'' ?_ (by decide)
    rw [Literal.toList_quote]
    exact List.mem_cons_self
  have numeric {s : String} (numeric : Literal.looksNumeric s.toList = true) : Bland s := by
    obtain ⟨c, member, digit⟩ := (Literal.looksNumeric_iff.mp numeric).1
    exact bland_of_mark member (mem_literalMarks digit)
  cases v with
  | null => exact ⟨by decide, by decide, by decide⟩
  | bool b => cases b <;> exact ⟨by decide, by decide, by decide⟩
  | int i => exact numeric (looksNumeric_int i)
  | float x => exact numeric (Binary64.looksNumeric_toText x)
  | string s => exact quoted s
  | array items => exact quoted _
  | object members => exact quoted _

theorem spelled_literal {raw : String} (readsAs : ReadsAs params text (.literal raw)) :
    ∃ t, Spelled text [t] ∧ (t.lexeme = .word raw ∨ ∃ q, t.lexeme = .quoted q) := by
  obtain ⟨-, ts, spelled, reads⟩ := readsAs
  have here := reads [] [] [] (by simp)
  simp only [bytes_nil, moved, Token.shift_none, List.append_nil, List.nil_append] at here
  generalize literal : Operand.literal raw = o at here
  cases here with
  | quoted is => exact ⟨_, spelled, .inr ⟨_, is⟩⟩
  | call => cases literal
  | word is bare =>
    rcases wordOperand_cases params _ with itself | ⟨name, param⟩
    · cases literal.trans itself
      exact ⟨_, spelled, .inl is⟩
    · cases literal.trans param

theorem not_readsComparison {field : String} {t : Token} {ts after : List Token} {c : Comparison}
    {raw : String} (bland : Bland raw) (is : t.lexeme = .word raw ∨ ∃ q, t.lexeme = .quoted q) :
    ¬ ReadsComparison source field (t :: ts) c after := by
  have other : t.isKeyword "not" = false := by
    rcases is with word | ⟨q, quoted⟩
    · simp [Token.isKeyword, word, bland.not_not]
    · simp [Token.isKeyword, quoted]
  have none (r : Relation) (mid : List Token) :
      ¬ Found (parseRelation field (skipNot (t :: ts)).2) r mid := by
    rw [skipNot_other other, found_parseRelation_iff]
    rintro ⟨u, more, same, choice⟩
    cases same
    rcases is with word | ⟨q, quoted⟩
    · rcases choice with ⟨s, k, symbol, -⟩ | ⟨w, here, known, -⟩ | ⟨w, here, -, null, -⟩
      · rw [word] at symbol
        cases symbol
      · rw [word] at here
        cases here
        rw [bland.no_relation] at known
        cases known
      · rw [word] at here
        cases here
        exact bland.not_is null
    · rcases choice with ⟨s, k, symbol, -⟩ | ⟨w, here, -⟩ | ⟨w, here, -⟩
      · rw [quoted] at symbol
        cases symbol
      · rw [quoted] at here
        cases here
      · rw [quoted] at here
        cases here
  intro reads
  cases reads with
  | nothing relation => exact none _ _ relation
  | list relation => exact none _ _ relation
  | single relation => exact none _ _ relation

/-- A comparison with a field that reads as a negation is read as the negation of one that has a
relation's word for its field and no relation. -/
theorem refuses_compared {field word : List Char} {raw : String} (is : IsWord field)
    (negates : Text.asciiLower (String.ofList field) = "not") (isWord : IsWord word)
    (other : Text.asciiLower (String.ofList word) ≠ "not")
    (readsAs : ReadsAs params text (.literal raw)) (bland : Bland raw) :
    Refuses params .not (field ++ ' ' :: (word ++ ' ' :: text)) := by
  obtain ⟨t, spelled, literal⟩ := spelled_literal readsAs
  have trimmed := is.trimmed.join (isWord.trimmed.join readsAs.trimmed [' ']) [' ']
  rw [List.append_assoc, List.append_assoc] at trimmed
  refine ⟨trimmed, _,
    (spelled_word is).blank_append ((spelled_word isWord).blank_append spelled),
    fun pre post rest f after derives => ?_⟩
  have negation (n m n' m' : Nat) : isNegation ⟨.word (String.ofList field), n, m⟩
      ⟨.word (String.ofList word), n', m'⟩ = true := by
    simp [isNegation, isKeyword_word _ _ negates, Lexeme.isSymbol]
  rw [moved_append, moved_shift, moved_append, moved_shift] at derives
  obtain ⟨g, inner⟩ := Derives.negation_cases (negation _ _ _ _) derives
  cases inner with
  | negation again =>
    rw [isNegation, not_isKeyword_word _ _ other] at again
    cases again
  | plain bare inner =>
    cases inner with
    | group opens => cases opens
    | comparison same reads =>
      refine not_readsComparison bland ?_ reads
      exact literal

end StoreGateway.Filter

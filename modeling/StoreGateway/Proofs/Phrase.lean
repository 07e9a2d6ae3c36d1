import StoreGateway.Proofs.Embedding

/-! Filter texts put together from smaller ones, and the filters that they read as. -/

namespace StoreGateway.Filter

variable {params : Params}

/-- Text that trimming keeps. -/
structure Trimmed (cs : List Char) : Prop where
  present : cs ≠ []
  head : ∀ c ∈ cs.head?, Text.isBlank c = false
  last : ∀ c ∈ cs.getLast?, Text.isBlank c = false

theorem trimmed_iff {cs : List Char} :
    (cs.isEmpty = false ∧ cs.head?.all (!Text.isBlank ·) ∧ cs.getLast?.all (!Text.isBlank ·)) ↔
      Trimmed cs := by
  constructor
  · intro is
    refine ⟨List.isEmpty_eq_false_iff.mp is.1, fun c member => ?_, fun c member => ?_⟩
    · simpa [Option.mem_def.mp member] using is.2.1
    · simpa [Option.mem_def.mp member] using is.2.2
  · intro is
    refine ⟨List.isEmpty_eq_false_iff.mpr is.present, ?_, ?_⟩
    · exact Option.all_eq_true _ _ |>.mpr fun c same => by simp [is.head c same]
    · exact Option.all_eq_true _ _ |>.mpr fun c same => by simp [is.last c same]

instance (cs : List Char) : Decidable (Trimmed cs) := decidable_of_iff _ trimmed_iff

theorem Trimmed.join {front back : List Char} (first : Trimmed front) (second : Trimmed back)
    (mid : List Char) : Trimmed (front ++ mid ++ back) := by
  refine ⟨by simp [first.present], fun c member => ?_, fun c member => ?_⟩
  · cases front with
    | nil => exact absurd rfl first.present
    | cons d front => exact first.head c member
  · rw [List.getLast?_append, List.getLast?_eq_some_getLast second.present,
      Option.some_or] at member
    rw [← List.getLast?_eq_some_getLast second.present] at member
    exact second.last c member

theorem trimChars_of_trimmed {cs : List Char} (trimmed : Trimmed cs) : Text.trimChars cs = cs := by
  have kept (ds : List Char) (head : ∀ c ∈ ds.head?, Text.isBlank c = false) :
      ds.dropWhile Text.isBlank = ds := by
    cases ds with
    | nil => rfl
    | cons d ds => rw [List.dropWhile_cons, head d rfl]; rfl
  unfold Text.trimChars Text.trimEnd
  rw [kept cs trimmed.head, kept cs.reverse, List.reverse_reverse]
  intro c member
  rw [List.head?_reverse] at member
  exact trimmed.last c member

/-- Tokens at which a filter of the rank comes to its end. -/
def Stops : Rank → List Token → Prop
  | .or, rest => rest.head?.map Token.lexeme ≠ some .opening ∧ rest.head?.any isAnd = false ∧
      rest.head?.bind orJoiner? = none
  | .and, rest => rest.head?.map Token.lexeme ≠ some .opening ∧ rest.head?.any isAnd = false
  | _, rest => rest.head?.map Token.lexeme ≠ some .opening

/-- A text that reads as the filter wherever it stands before such tokens. -/
structure Reads (params : Params) (rank : Rank) (text : List Char) (f : Filter) : Prop where
  trimmed : Trimmed text
  derives : ∃ ts, Spelled text ts ∧ ∀ pre post rest, Stops rank rest →
    Derives ⟨pre ++ text ++ post, params⟩ rank (moved (bytes pre) ts rest) f rest

theorem stops_nil (rank : Rank) : Stops rank [] := by
  cases rank <;> simp [Stops]

theorem Reads.parse {text : List Char} {f : Filter} (reads : Reads params .or text f) :
    parse params (String.ofList text) = .ok (some f) := by
  obtain ⟨ts, spelled, derives⟩ := reads.derives
  have whole := derives [] [] [] (stops_nil _)
  rw [List.nil_append, List.append_nil, bytes_nil, moved, Token.shift_none,
    List.append_nil] at whole
  unfold Filter.parse
  rw [String.toList_ofList, trimChars_of_trimmed reads.trimmed]
  simp only [reads.trimmed.present, if_false, spelled.tokensFrom, bind, Except.bind,
    ofTokens_eq_ok_iff.mpr whole]
  rfl

structure IsWord (w : List Char) : Prop where
  present : w ≠ []
  letters : ∀ c ∈ w, isWordChar c = true

theorem isWord_iff {w : List Char} : (w.isEmpty = false ∧ w.all isWordChar = true) ↔ IsWord w := by
  constructor
  · intro is
    exact ⟨List.isEmpty_eq_false_iff.mp is.1, List.all_eq_true.mp is.2⟩
  · intro is
    exact ⟨List.isEmpty_eq_false_iff.mpr is.present, List.all_eq_true.mpr is.letters⟩

instance (w : List Char) : Decidable (IsWord w) := decidable_of_iff _ isWord_iff

theorem IsWord.trimmed {w : List Char} (is : IsWord w) : Trimmed w := by
  refine ⟨is.present, fun c member => ?_, fun c member => ?_⟩
  · exact not_blank_of_word (is.letters c (List.mem_of_mem_head? member))
  · exact not_blank_of_word (is.letters c (List.mem_of_getLast? member))

theorem spelled_word {w : List Char} (is : IsWord w) :
    Spelled w [⟨.word (String.ofList w), 0, bytes w⟩] := by
  cases w with
  | nil => exact absurd rfl is.present
  | cons c more =>
    have letters : ∀ d ∈ more, isWordChar d := fun d member =>
      is.letters d (List.mem_cons_of_mem c member)
    have first := is.letters c List.mem_cons_self
    have starts : Starts c (more ++ []) _ _ := .word first
    rw [takeWhile_word letters (by simp), dropWhile_word letters (by simp)] at starts
    exact starts.spelled (not_blank_of_word first) String.toList_ofList

theorem Spelled.blank_append {front back : List Char} {ts us : List Token}
    (first : Spelled front ts) (last : Spelled back us) :
    Spelled (front ++ ' ' :: back) (ts ++ us.map (Token.shift (bytes front + 1))) := by
  have whole := first.append (spelled_blank last) (fun post _ => apart_blank _)
  rwa [Token.shift_all] at whole

theorem isKeyword_word {w : List Char} {keyword : String} (n m : Nat)
    (same : Text.asciiLower (String.ofList w) = keyword) :
    (⟨.word (String.ofList w), n, m⟩ : Token).isKeyword keyword = true := by
  simp [Token.isKeyword, same]

theorem not_isKeyword_word {w : List Char} {keyword : String} (n m : Nat)
    (other : Text.asciiLower (String.ofList w) ≠ keyword) :
    (⟨.word (String.ofList w), n, m⟩ : Token).isKeyword keyword = false := by
  simp [Token.isKeyword, other]

theorem stops_closing {rank : Rank} {u : Token} (is : u.lexeme = .closing) (rest : List Token) :
    Stops rank (u :: rest) := by
  cases rank <;> simp [Stops, is, isAnd, orJoiner?, Token.isKeyword]

theorem Trimmed.parenthesised (text : List Char) : Trimmed ('(' :: (text ++ [')'])) := by
  refine ⟨by simp, fun c member => ?_, fun c member => ?_⟩
  · cases member; rfl
  · rw [← List.cons_append, List.getLast?_append] at member
    cases member; rfl

/-- A filter in parentheses, when it reads as such before the closing one. -/
theorem reads_parenthesised {text : List Char} {ts : List Token} {f : Filter}
    (spelled : Spelled text ts)
    (derives : ∀ pre post u rest, u.lexeme = .closing →
      Derives ⟨pre ++ text ++ post, params⟩ .or (moved (bytes pre) ts (u :: rest)) f (u :: rest)) :
    Reads params .not ('(' :: (text ++ [')'])) f := by
  refine ⟨Trimmed.parenthesised text, _,
    spelled_opening (spelled.append (spelled_closing spelled_nil) fun post _ => apart_closing _),
    fun pre post rest _ => ?_⟩
  refine .plain ?_ ?_
  · intro t next more same
    have first : t.lexeme = .opening := by rw [← (List.cons.inj same).1]; rfl
    simp [isNegation, Token.isKeyword, first]
  · have inner := derives (pre ++ ['(']) (')' :: post)
      (Token.shift (bytes pre + (1 + bytes text)) ⟨.closing, 0, 1⟩) rest rfl
    have same : pre ++ ['('] ++ text ++ ')' :: post = pre ++ '(' :: (text ++ [')']) ++ post := by
      simp
    have size : bytes (pre ++ ['(']) = bytes pre + 1 := by rw [bytes_append]; rfl
    rw [same, size] at inner
    rw [moved_cons]
    refine .group (u := Token.shift (bytes pre + (1 + bytes text)) ⟨.closing, 0, 1⟩) rfl ?_ rfl
    simpa using inner

theorem Reads.group {text : List Char} {f : Filter} (reads : Reads params .or text f) :
    Reads params .not ('(' :: (text ++ [')'])) f := by
  obtain ⟨ts, spelled, derives⟩ := reads.derives
  exact reads_parenthesised spelled fun pre post u rest closes =>
    derives pre post (u :: rest) (stops_closing closes rest)

/-- Blanks inside the parentheses do not matter. -/
theorem Reads.spacedGroup {text : List Char} {f : Filter} (reads : Reads params .or text f) :
    Reads params .not ('(' :: ((' ' :: (text ++ [' '])) ++ [')'])) f := by
  obtain ⟨ts, spelled, derives⟩ := reads.derives
  have spaced : Spelled (' ' :: (text ++ [' '])) (ts.map (Token.shift 1)) := by
    have ended := spelled.append (spelled_blank spelled_nil) fun post _ => apart_blank post
    rw [List.map_nil, List.map_nil, List.append_nil] at ended
    exact spelled_blank ended
  refine reads_parenthesised spaced fun pre post u rest closes => ?_
  have inner := derives (pre ++ [' ']) (' ' :: post) (u :: rest) (stops_closing closes rest)
  have same : pre ++ [' '] ++ text ++ ' ' :: post = pre ++ ' ' :: (text ++ [' ']) ++ post := by simp
  have size : bytes (pre ++ [' ']) = bytes pre + 1 := by
    rw [bytes_append]
    rfl
  rw [same, size] at inner
  rw [moved_shift]
  exact inner

theorem Derives.no_symbol_first {source : Source} {ts rest : List Token} {f : Filter}
    (derives : Derives source .not ts f rest) :
    ∃ t more, ts = t :: more ∧ t.lexeme.isSymbol = false := by
  cases derives with
  | @negation t next ts rest f is inner =>
    refine ⟨t, _, rfl, ?_⟩
    have keyword := (Bool.and_eq_true_iff.mp is).1
    unfold Token.isKeyword at keyword
    split at keyword
    · next w same => rw [same]; rfl
    · cases keyword
  | plain bare inner =>
    cases inner with
    | @group t u ts rest f opens inner closes => exact ⟨t, ts, rfl, by rw [opens]; rfl⟩
    | @comparison t ts rest field c is reads => exact ⟨t, ts, rfl, by rw [is]; rfl⟩

theorem Reads.negated {word text : List Char} {f : Filter} (reads : Reads params .not text f)
    (is : IsWord word) (keyword : Text.asciiLower (String.ofList word) = "not") :
    Reads params .not (word ++ ' ' :: text) (negate f) := by
  obtain ⟨ts, spelled, derives⟩ := reads.derives
  have trimmed := is.trimmed.join reads.trimmed [' ']
  rw [List.append_assoc] at trimmed
  refine ⟨trimmed, _, (spelled_word is).blank_append spelled, fun pre post rest stops => ?_⟩
  have inner := derives (pre ++ (word ++ [' '])) post rest stops
  have same : pre ++ (word ++ [' ']) ++ text ++ post = pre ++ (word ++ ' ' :: text) ++ post := by
    simp
  have size : bytes (pre ++ (word ++ [' '])) = bytes pre + (bytes word + 1) := by
    rw [bytes_append, bytes_append]; rfl
  rw [same, size] at inner
  obtain ⟨next, more, first, plain⟩ := inner.no_symbol_first
  rw [first] at inner
  rw [moved_append, moved_shift, first]
  refine .negation ?_ inner
  simp [isNegation, plain, isKeyword_word _ _ keyword]

/-- A connective's word joins texts of one rank to texts of another. -/
structure Links (word : List Char) (op : Connective) (item whole : Rank) (rest : Filter → Rank) :
    Prop where
  isWord : IsWord word
  start {source : Source} {ts mid after : List Token} {left f : Filter} :
    Derives source item ts left mid → Derives source (rest left) mid f after →
      Derives source whole ts f after
  step {source : Source} {t : Token} {ts mid after : List Token} {left right f : Filter} :
    t.lexeme = .word (String.ofList word) → Derives source item ts right mid →
      Derives source (rest (join op left right)) mid f after →
      Derives source (rest left) (t :: ts) f after
  done {source : Source} {left : Filter} {after : List Token} :
    Stops whole after → Derives source (rest left) after left after
  stops {after : List Token} : Stops whole after → Stops item after
  stops_word {t : Token} {after : List Token} :
    t.lexeme = .word (String.ofList word) → Stops item (t :: after)

theorem isKeyword_of_word {t : Token} {word : List Char} {keyword : String}
    (is : t.lexeme = .word (String.ofList word))
    (same : Text.asciiLower (String.ofList word) = keyword) : t.isKeyword keyword = true := by
  simp [Token.isKeyword, is, same]

theorem links_and {word : List Char} (is : IsWord word)
    (keyword : Text.asciiLower (String.ofList word) = "and") :
    Links word .and .not .and .andRest where
  isWord := is
  start := .and
  step same next chain := by
    refine .andMore ?_ next chain
    rw [isAnd, isKeyword_of_word same keyword]
    rfl
  done stops := .andEnd stops.2
  stops stops := stops.1
  stops_word same := by simp [Stops, same]

theorem links_or {word : List Char} (is : IsWord word)
    (keyword : Text.asciiLower (String.ofList word) = "or") :
    Links word .or .and .or .orRest where
  isWord := is
  start := .or
  step same next chain := by
    refine .orMore ?_ next chain
    rw [orJoiner?, isKeyword_of_word same keyword]
    rfl
  done stops := .orEnd stops.2.2
  stops stops := ⟨stops.1, stops.2.1⟩
  stops_word {t after} same := by
    have or := isKeyword_of_word same keyword
    have and := Token.isKeyword_unique "and" or (by decide)
    simp [Stops, same, isAnd, and]

/-- The texts of a chain after its first one, each with the connective's word before it. -/
def chainText (word : List Char) (more : List (List Char × Filter)) : List Char :=
  more.flatMap fun next => ' ' :: (word ++ ' ' :: next.1)

section Split

variable (pre post word : List Char) (next : List Char × Filter) (more : List (List Char × Filter))

theorem split_behind : pre ++ ' ' :: (word ++ ' ' :: next.1) ++ chainText word more ++ post =
    pre ++ chainText word (next :: more) ++ post := by
  rw [show chainText word (next :: more) = ' ' :: (word ++ ' ' :: next.1) ++ chainText word more
    from rfl]
  simp

theorem split_first : pre ++ ' ' :: (word ++ [' ']) ++ next.1 ++ (chainText word more ++ post) =
    pre ++ chainText word (next :: more) ++ post := by
  rw [show chainText word (next :: more) = ' ' :: (word ++ ' ' :: next.1) ++ chainText word more
    from rfl]
  simp

end Split

def chainFilter (op : Connective) (first : Filter) (more : List (List Char × Filter)) : Filter :=
  more.foldl (fun left next => join op left next.2) first

variable {word : List Char} {op : Connective} {item whole : Rank} {rest : Filter → Rank}

theorem chain_apart (more : List (List Char × Filter)) (post : List Char)
    (apart : Apart post) : Apart (chainText word more ++ post) := by
  cases more with
  | nil => exact apart
  | cons next more => exact apart_blank _

theorem Links.derives_rest (links : Links word op item whole rest)
    (more : List (List Char × Filter)) (reads : ∀ next ∈ more, Reads params item next.1 next.2) :
    ∃ ts, Spelled (chainText word more) ts ∧ ∀ pre post left after, Stops whole after →
      Stops item (moved (bytes pre) ts after) ∧
      Derives ⟨pre ++ chainText word more ++ post, params⟩ (rest left)
        (moved (bytes pre) ts after) (chainFilter op left more) after := by
  induction more with
  | nil =>
    exact ⟨[], spelled_nil, fun pre post left after stops => ⟨links.stops stops, links.done stops⟩⟩
  | cons next more ih =>
    obtain ⟨us, spelled, derives⟩ := (reads next List.mem_cons_self).derives
    obtain ⟨vs, others, chain⟩ := ih fun other member => reads other (List.mem_cons_of_mem next member)
    refine ⟨_, (spelled_blank ((spelled_word links.isWord).blank_append spelled)).append others
      fun post apart => chain_apart more post apart, fun pre post left after stops => ?_⟩
    obtain ⟨ends, behind⟩ := chain (pre ++ ' ' :: (word ++ ' ' :: next.1)) post
      (join op left next.2) after stops
    have inner := derives (pre ++ ' ' :: (word ++ [' '])) (chainText word more ++ post) _ ends
    rw [split_behind] at behind
    rw [split_first] at inner
    have blank : ' '.utf8Size = 1 := rfl
    simp only [bytes_append, bytes_cons, bytes_nil, blank, Nat.add_zero] at inner behind ⊢
    simp only [moved_append, moved_shift, List.map_cons, moved_cons, List.cons_append,
      List.nil_append]
    refine ⟨links.stops_word rfl, links.step rfl ?_ behind⟩
    simpa only [Nat.add_assoc, Nat.add_comm, Nat.add_left_comm] using inner

theorem Trimmed.chain {text : List Char} (trimmed : Trimmed text)
    (more : List (List Char × Filter)) (others : ∀ next ∈ more, Trimmed next.1) :
    Trimmed (text ++ chainText word more) := by
  induction more generalizing text with
  | nil => rwa [chainText, List.flatMap_nil, List.append_nil]
  | cons next more ih =>
    have first := trimmed.join (others next List.mem_cons_self) (' ' :: (word ++ [' ']))
    have whole := ih first fun other member => others other (List.mem_cons_of_mem next member)
    simpa [chainText] using whole

theorem Links.reads (links : Links word op item whole rest) {text : List Char} {f : Filter}
    (more : List (List Char × Filter)) (first : Reads params item text f)
    (others : ∀ next ∈ more, Reads params item next.1 next.2) :
    Reads params whole (text ++ chainText word more) (chainFilter op f more) := by
  obtain ⟨us, spelled, derives⟩ := first.derives
  obtain ⟨vs, behind, chain⟩ := links.derives_rest more others
  refine ⟨first.trimmed.chain more fun next member => (others next member).trimmed, _,
    spelled.append behind fun post apart => chain_apart more post apart,
    fun pre post after stops => ?_⟩
  obtain ⟨ends, continued⟩ := chain (pre ++ text) post f after stops
  have start := derives pre (chainText word more ++ post) _ ends
  have same : pre ++ text ++ (chainText word more ++ post) =
      pre ++ (text ++ chainText word more) ++ post := by
    simp
  have same' : pre ++ text ++ chainText word more ++ post =
      pre ++ (text ++ chainText word more) ++ post := by
    simp
  rw [same] at start
  rw [same'] at continued
  rw [moved_append, moved_shift]
  rw [bytes_append] at start continued
  exact links.start start continued

theorem Reads.toAnd {text : List Char} {f : Filter} (reads : Reads params .not text f) :
    Reads params .and text f := by
  have alone := (@links_and "and".toList (by decide) rfl).reads [] reads nofun
  rwa [chainText, List.flatMap_nil, List.append_nil] at alone

theorem Reads.toOr {text : List Char} {f : Filter} (reads : Reads params .and text f) :
    Reads params .or text f := by
  have alone := (@links_or "or".toList (by decide) rfl).reads [] reads nofun
  rwa [chainText, List.flatMap_nil, List.append_nil] at alone

theorem toList_intercalate_chain {separator : String} (same : separator.toList = ' ' :: (word ++ [' ']))
    (first : String) (more : List (List Char × Filter)) :
    (separator.intercalate (first :: more.map fun next => String.ofList next.1)).toList =
      first.toList ++ chainText word more := by
  induction more generalizing first with
  | nil => simp [chainText]
  | cons next more ih =>
    rw [List.map_cons, String.intercalate_cons_cons, String.toList_append, String.toList_append, ih,
      same, String.toList_ofList]
    simp [chainText]

/-- Texts joined by a connective's word read as the chain of what each of them reads as. -/
theorem Links.reads_joined (links : Links word op item whole rest) {separator : String}
    (spaced : separator.toList = ' ' :: (word ++ [' '])) {α : Type} {text : α → String}
    {filter : α → Filter} {first : α} {more : List α}
    (all : ∀ i ∈ first :: more, Reads params item (text i).toList (filter i)) :
    Reads params whole (separator.intercalate ((first :: more).map text)).toList
      (chainFilter op (filter first) (more.map fun i => ((text i).toList, filter i))) := by
  have texts : more.map text = (more.map fun i => ((text i).toList, filter i)).map
      fun next => String.ofList next.1 := by
    rw [List.map_map]
    exact List.map_congr_left fun i _ => String.ofList_toList.symm
  rw [List.map_cons, texts, toList_intercalate_chain spaced]
  refine links.reads _ (all first List.mem_cons_self) fun next member => ?_
  obtain ⟨i, inside, rfl⟩ := List.mem_map.mp member
  exact all i (List.mem_cons_of_mem first inside)

/-- A text that reads as the operand wherever it stands before no parenthesis. -/
structure ReadsAs (params : Params) (text : List Char) (o : Operand) : Prop where
  trimmed : Trimmed text
  reads : ∃ ts, Spelled text ts ∧ ∀ pre post rest, rest.head?.map Token.lexeme ≠ some .opening →
    ReadsOperand ⟨pre ++ text ++ post, params⟩ (moved (bytes pre) ts rest) o rest

/-- A text that reads as the relation. -/
structure Relates (text : List Char) (r : Relation) : Prop where
  trimmed : Trimmed text
  found : ∃ ts, Spelled text ts ∧ ∀ n field rest,
    skipNot (moved n ts rest) = (false, moved n ts rest) ∧
    Found (parseRelation field (moved n ts rest)) r rest

/-- A field that is no keyword of negation. -/
structure IsField (field : List Char) : Prop extends IsWord field where
  not_not : Text.asciiLower (String.ofList field) ≠ "not"

variable {field relation operand : List Char} {r : Relation} {o : Operand}

theorem reads_comparison {ts : List Token} {c : Comparison} {text : List Char}
    (is : IsField field) (trimmed : Trimmed text) (spelled : Spelled text ts)
    (reads : ∀ pre post rest, rest.head?.map Token.lexeme ≠ some .opening →
      ReadsComparison ⟨pre ++ text ++ post, params⟩ (String.ofList field)
        (moved (bytes pre) ts rest) c rest) :
    Reads params .not (field ++ ' ' :: text) (.test c) := by
  have both := is.toIsWord.trimmed.join trimmed [' ']
  rw [List.append_assoc] at both
  refine ⟨both, _, (spelled_word is.toIsWord).blank_append spelled, fun pre post rest stops => ?_⟩
  have comparison := reads (pre ++ (field ++ [' '])) post rest stops
  have same : pre ++ (field ++ [' ']) ++ text ++ post = pre ++ (field ++ ' ' :: text) ++ post := by
    simp
  have size : bytes (pre ++ (field ++ [' '])) = bytes pre + (bytes field + 1) := by
    rw [bytes_append, bytes_append]; rfl
  rw [same, size] at comparison
  rw [moved_append, moved_shift]
  refine .plain ?_ (.comparison rfl comparison)
  intro t next more same
  have first : t.lexeme = .word (String.ofList field) := by rw [← (List.cons.inj same).1]; rfl
  simp [isNegation, Token.isKeyword, first, is.not_not]

theorem reads_nothing (is : IsField field) (relates : Relates relation r)
    (takes : r.takesNothing = true) :
    Reads params .not (field ++ ' ' :: relation)
      (.test ⟨String.ofList field, r, .absent, false⟩) := by
  obtain ⟨ts, spelled, found⟩ := relates.found
  refine reads_comparison is relates.trimmed spelled fun pre post rest _ => ?_
  obtain ⟨skips, reads⟩ := found (bytes pre) (String.ofList field) rest
  have comparison : ReadsComparison ⟨pre ++ relation ++ post, params⟩ (String.ofList field)
      (moved (bytes pre) ts rest) _ rest :=
    .nothing (by rw [skips]; exact reads) takes
  rwa [skips] at comparison

theorem reads_single (is : IsField field) (relates : Relates relation r)
    (readsAs : ReadsAs params operand o) (takes : r.takesNothing = false)
    (alone : r.takesList = false) :
    Reads params .not (field ++ ' ' :: (relation ++ ' ' :: operand))
      (.test ⟨String.ofList field, r, o, false⟩) := by
  obtain ⟨ts, spelled, found⟩ := relates.found
  obtain ⟨us, behind, value⟩ := readsAs.reads
  have trimmed := relates.trimmed.join readsAs.trimmed [' ']
  rw [List.append_assoc] at trimmed
  refine reads_comparison is trimmed (spelled.blank_append behind) fun pre post rest bare => ?_
  have last := value (pre ++ (relation ++ [' '])) post rest bare
  have same : pre ++ (relation ++ [' ']) ++ operand ++ post =
      pre ++ (relation ++ ' ' :: operand) ++ post := by
    simp
  have size : bytes (pre ++ (relation ++ [' '])) = bytes pre + (bytes relation + 1) := by
    rw [bytes_append, bytes_append]; rfl
  rw [same, size] at last
  rw [moved_append, moved_shift]
  obtain ⟨skips, reads⟩ := found (bytes pre) (String.ofList field)
    (moved (bytes pre + (bytes relation + 1)) us rest)
  have comparison : ReadsComparison ⟨pre ++ (relation ++ ' ' :: operand) ++ post, params⟩
      (String.ofList field) (moved (bytes pre) ts (moved (bytes pre + (bytes relation + 1)) us rest))
      _ rest :=
    .single (by rw [skips]; exact reads) takes alone last
  rwa [skips] at comparison

/-- The texts of a list's operands after its first one, and the closing parenthesis. -/
def itemsEnd (more : List (List Char × Operand)) : List Char :=
  more.flatMap (fun next => ',' :: ' ' :: next.1) ++ [')']

theorem readsItems_all (first : List Char × Operand) (more : List (List Char × Operand))
    (all : ∀ next ∈ first :: more, ReadsAs params next.1 next.2) :
    ∃ ts, Spelled (first.1 ++ itemsEnd more) ts ∧ ∀ pre post rest,
      ReadsItems ⟨pre ++ (first.1 ++ itemsEnd more) ++ post, params⟩ (moved (bytes pre) ts rest)
        (first.2 :: more.map Prod.snd) rest := by
  induction more generalizing first with
  | nil =>
    obtain ⟨ts, spelled, value⟩ := (all first List.mem_cons_self).reads
    refine ⟨_, spelled.append (spelled_closing spelled_nil) fun post _ => apart_closing _,
      fun pre post rest => ?_⟩
    rw [moved_append, moved_shift]
    have here := value pre (')' :: post)
      (moved (bytes pre + bytes first.1) (⟨.closing, 0, 1⟩ :: [].map (Token.shift 1)) rest)
      (by simp)
    have same : pre ++ first.1 ++ ')' :: post = pre ++ (first.1 ++ itemsEnd []) ++ post := by
      simp [itemsEnd]
    rw [same] at here
    exact .last here rfl
  | cons next more ih =>
    obtain ⟨ts, spelled, value⟩ := (all first List.mem_cons_self).reads
    obtain ⟨us, behind, others⟩ := ih next fun other member =>
      all other (List.mem_cons_of_mem first member)
    have split : first.1 ++ itemsEnd (next :: more) =
        first.1 ++ ',' :: ' ' :: (next.1 ++ itemsEnd more) := by
      simp [itemsEnd]
    rw [split]
    refine ⟨_, spelled.append (spelled_comma (spelled_blank behind)) fun post _ => apart_comma _,
      fun pre post rest => ?_⟩
    have here := value pre (',' :: ' ' :: (next.1 ++ itemsEnd more) ++ post)
      (moved (bytes pre + bytes first.1)
        (⟨.comma, 0, 1⟩ :: (us.map (Token.shift 1)).map (Token.shift 1)) rest) (by simp)
    have tail := others (pre ++ (first.1 ++ [',', ' '])) post rest
    have size : bytes (pre ++ (first.1 ++ [',', ' '])) = bytes pre + bytes first.1 + (1 + 1) := by
      rw [bytes_append, bytes_append, ← Nat.add_assoc]; rfl
    have same : pre ++ first.1 ++ (',' :: ' ' :: (next.1 ++ itemsEnd more) ++ post) =
        pre ++ (first.1 ++ ',' :: ' ' :: (next.1 ++ itemsEnd more)) ++ post := by
      simp
    have same' : pre ++ (first.1 ++ [',', ' ']) ++ (next.1 ++ itemsEnd more) ++ post =
        pre ++ (first.1 ++ ',' :: ' ' :: (next.1 ++ itemsEnd more)) ++ post := by
      simp
    rw [same, moved_cons, moved_shift, moved_shift] at here
    rw [same', size, ← Nat.add_assoc] at tail
    rw [moved_append, moved_shift, moved_cons, moved_shift, moved_shift]
    exact .more here rfl tail

theorem reads_list {first : List Char × Operand} {more : List (List Char × Operand)}
    (is : IsField field) (relates : Relates relation r) (takes : r.takesList = true)
    (all : ∀ next ∈ first :: more, ReadsAs params next.1 next.2) :
    Reads params .not (field ++ ' ' :: (relation ++ ' ' :: '(' :: (first.1 ++ itemsEnd more)))
      (.test ⟨String.ofList field, r, .list (first.2 :: more.map Prod.snd), false⟩) := by
  obtain ⟨ts, spelled, found⟩ := relates.found
  obtain ⟨us, behind, items⟩ := readsItems_all first more all
  have trimmed : Trimmed (relation ++ ' ' :: '(' :: (first.1 ++ itemsEnd more)) := by
    have whole := relates.trimmed.join
      (Trimmed.parenthesised (first.1 ++ more.flatMap (fun next => ',' :: ' ' :: next.1))) [' ']
    simpa [itemsEnd] using whole
  refine reads_comparison is trimmed (spelled.blank_append (spelled_opening behind))
    fun pre post rest _ => ?_
  have inside := items (pre ++ (relation ++ [' ', '('])) post rest
  have size : bytes (pre ++ (relation ++ [' ', '('])) = bytes pre + (bytes relation + 1) + 1 := by
    rw [bytes_append, bytes_append, Nat.add_assoc, Nat.add_assoc]; rfl
  have same : pre ++ (relation ++ [' ', '(']) ++ (first.1 ++ itemsEnd more) ++ post =
      pre ++ (relation ++ ' ' :: '(' :: (first.1 ++ itemsEnd more)) ++ post := by
    simp
  rw [same, size] at inside
  rw [moved_append, moved_shift]
  obtain ⟨skips, reads⟩ := found (bytes pre) (String.ofList field)
    (moved (bytes pre + (bytes relation + 1)) (⟨.opening, 0, 1⟩ :: us.map (Token.shift 1)) rest)
  rw [moved_cons, moved_shift] at skips reads ⊢
  have comparison : ReadsComparison
      ⟨pre ++ (relation ++ ' ' :: '(' :: (first.1 ++ itemsEnd more)) ++ post, params⟩
      (String.ofList field) _ _ rest :=
    .list (by rw [skips]; exact reads) takes rfl inside
  rwa [skips] at comparison

end StoreGateway.Filter

import StoreGateway.Filter.Token

/-! What the tokens of a text are when it stands in another text, or is cut after one of them. -/

namespace StoreGateway

/-- A reading with the given find and rest. -/
def Found {α β ε : Type} {given : List β} (outcome : Except ε (Reading α given)) (found : α)
    (rest : List β) : Prop :=
  ∃ shorter, outcome = .ok ⟨found, rest, shorter⟩

def Token.shift (n : Nat) (t : Token) : Token := ⟨t.lexeme, n + t.start, n + t.stop⟩

@[simp] theorem Token.shift_lexeme (n : Nat) (t : Token) : (t.shift n).lexeme = t.lexeme := rfl

@[simp] theorem Token.shift_shift (n m : Nat) (t : Token) :
    (t.shift m).shift n = t.shift (n + m) := by
  simp [Token.shift, Nat.add_assoc]

@[simp] theorem Token.shift_all (n m : Nat) (ts : List Token) :
    (ts.map (Token.shift m)).map (Token.shift n) = ts.map (Token.shift (n + m)) := by
  simp [Function.comp_def]

@[simp] theorem Token.shift_zero (t : Token) : t.shift 0 = t := by
  simp [Token.shift]

@[simp] theorem Token.shift_none (ts : List Token) : ts.map (Token.shift 0) = ts := by
  induction ts with
  | nil => rfl
  | cons t ts ih => rw [List.map_cons, ih, Token.shift_zero]

namespace Filter

def bytes : List Char → Nat
  | [] => 0
  | c :: cs => c.utf8Size + bytes cs

@[simp] theorem bytes_nil : bytes [] = 0 := rfl

@[simp] theorem bytes_cons (c : Char) (cs : List Char) :
    bytes (c :: cs) = c.utf8Size + bytes cs := rfl

@[simp] theorem bytes_append (front back : List Char) :
    bytes (front ++ back) = bytes front + bytes back := by
  induction front with
  | nil => simp
  | cons c front ih => rw [List.cons_append, bytes_cons, bytes_cons, ih, Nat.add_assoc]

theorem utf8ByteSize_eq_bytes (text : String) : text.utf8ByteSize = bytes text.toList := by
  have sized (cs : List Char) : (String.ofList cs).utf8ByteSize = bytes cs := by
    induction cs with
    | nil => rfl
    | cons c cs ih =>
      rw [String.ofList_cons, String.utf8ByteSize_append, String.utf8ByteSize_singleton, ih,
        bytes_cons]
  rw [← sized text.toList, String.ofList_toList]

/-- Text that no token takes characters from when it stands behind the token. -/
def Apart (cs : List Char) : Prop := ∀ c ∈ cs.head?, c = ' ' ∨ c = ')' ∨ c = ','

theorem apart_nil : Apart [] := by intro c member; cases member

theorem apart_blank (cs : List Char) : Apart (' ' :: cs) := by
  intro c member; cases member; exact .inl rfl

theorem apart_closing (cs : List Char) : Apart (')' :: cs) := by
  intro c member; cases member; exact .inr (.inl rfl)

theorem apart_comma (cs : List Char) : Apart (',' :: cs) := by
  intro c member; cases member; exact .inr (.inr rfl)

theorem Apart.cases {cs : List Char} (apart : Apart cs) :
    cs = [] ∨ ∃ c more, cs = c :: more ∧ (c = ' ' ∨ c = ')' ∨ c = ',') := by
  cases cs with
  | nil => exact .inl rfl
  | cons c more => exact .inr ⟨c, more, rfl, apart c rfl⟩

/-- The token that text starts with. -/
inductive Starts (c : Char) (cs : List Char) : Lexeme → List Char → Prop
  | opening (is : c = '(') : Starts c cs .opening cs
  | closing (is : c = ')') : Starts c cs .closing cs
  | comma (is : c = ',') : Starts c cs .comma cs
  | quoted {inside after : List Char} (is : c = '\'' ∨ c = '"')
      (ends : untilQuote c cs = some (inside, after)) :
      Starts c cs (.quoted (String.ofList (c :: inside))) after
  | symbol {s : Symbol} {rest : List Char} (is : symbol? (c :: cs) = some (s, rest)) :
      Starts c cs (.symbol s) rest
  | word (is : isWordChar c) :
      Starts c cs (.word (String.ofList (c :: cs.takeWhile isWordChar)))
        (cs.dropWhile isWordChar)

def blankCodes : List Nat :=
  [9, 10, 11, 12, 13, 32, 133, 160, 5760, 8192, 8193, 8194, 8195, 8196, 8197, 8198, 8199, 8200, 8201,
    8202, 8232, 8233, 8239, 8287, 12288]

theorem mem_blankCodes {c : Char} (blank : Text.isBlank c = true) : c.toNat ∈ blankCodes := by
  simp only [Text.isBlank, Bool.or_eq_true, Bool.and_eq_true, decide_eq_true_eq, beq_iff_eq,
    Char.le_def, UInt32.le_iff_toNat_le] at blank
  rcases blank with (((((((((low | rfl) | rfl) | rfl) | rfl) | high) | rfl) | rfl) | rfl) | rfl) | rfl
  · have bounds : 9 ≤ c.toNat ∧ c.toNat ≤ 13 := low
    simp only [blankCodes, List.mem_cons, List.not_mem_nil, or_false]
    omega
  case inl.inl.inl.inl.inl.inr =>
    have bounds : 8192 ≤ c.toNat ∧ c.toNat ≤ 8202 := high
    simp only [blankCodes, List.mem_cons, List.not_mem_nil, or_false]
    omega
  all_goals decide

theorem not_blank_of_word {c : Char} (word : isWordChar c = true) : Text.isBlank c = false := by
  rw [← Bool.not_eq_true]
  intro blank
  have none : ∀ n ∈ blankCodes, isWordChar (Char.ofNat n) = false := by decide +kernel
  have this := none _ (mem_blankCodes blank)
  rw [Char.ofNat_toNat, word] at this
  cases this

theorem symbol_first {c : Char} {cs rest : List Char} {s : Symbol}
    (found : symbol? (c :: cs) = some (s, rest)) : c ∈ ['=', '!', '<', '>', '&', '|'] := by
  unfold symbol? at found
  split at found <;> simp_all

theorem no_symbol_of_word {c : Char} (word : isWordChar c) (cs : List Char) :
    symbol? (c :: cs) = none := by
  cases found : symbol? (c :: cs) with
  | none => rfl
  | some pair =>
    have first := symbol_first found
    simp only [List.mem_cons, List.not_mem_nil, or_false] at first
    rcases first with rfl | rfl | rfl | rfl | rfl | rfl <;> exact absurd word (by decide)

theorem found_lexeme_iff {start : Nat} {c : Char} {cs rest : List Char} {found : Lexeme} :
    Found (lexeme start c cs) found rest ↔ Starts c cs found rest := by
  constructor
  · rintro ⟨shorter, read⟩
    unfold lexeme at read
    split at read
    · cases read; exact .opening ‹_›
    split at read
    · cases read; exact .closing ‹_›
    split at read
    · cases read; exact .comma ‹_›
    split at read
    · split at read
      · cases read; exact .quoted ‹_› ‹_›
      · cases read
    split at read
    · cases read; exact .symbol ‹_›
    split at read
    · cases read; exact .word ‹_›
    · cases read
  · intro starts
    cases starts with
    | opening is => subst is; exact ⟨Nat.lt_add_one _, by simp [lexeme]⟩
    | closing is => subst is; exact ⟨Nat.lt_add_one _, by simp [lexeme]⟩
    | comma is => subst is; exact ⟨Nat.lt_add_one _, by simp [lexeme]⟩
    | quoted is ends =>
      refine ⟨Nat.lt_succ_of_lt (length_of_untilQuote ends), ?_⟩
      unfold lexeme
      rcases is with rfl | rfl
      all_goals
        simp only [Char.reduceEq, if_false, true_or, or_true, if_true]
        split
        · next found => rw [ends] at found; cases found; rfl
        · next found => rw [ends] at found; cases found
    | symbol is =>
      refine ⟨length_of_symbol? is, ?_⟩
      have first := symbol_first is
      simp only [List.mem_cons, List.not_mem_nil, or_false] at first
      unfold lexeme
      rcases first with rfl | rfl | rfl | rfl | rfl | rfl
      all_goals
        simp only [Char.reduceEq, if_false, or_self]
        split
        · next found => rw [is] at found; cases found; rfl
        · next found => rw [is] at found; cases found
    | word is =>
      have apart : c ∉ ['(', ')', ',', '\'', '"'] := by
        intro member
        simp only [List.mem_cons, List.not_mem_nil, or_false] at member
        rcases member with rfl | rfl | rfl | rfl | rfl <;> exact absurd is (by decide)
      simp only [List.mem_cons, List.not_mem_nil, or_false, not_or] at apart
      refine ⟨Nat.lt_succ_of_le (List.dropWhile_sublist isWordChar).length_le, ?_⟩
      unfold lexeme
      simp only [apart, if_false, or_self]
      split
      · next found => rw [no_symbol_of_word is] at found; cases found
      · simp only [is, if_true]

theorem untilQuote_splits {quote : Char} {cs inside after : List Char}
    (ends : untilQuote quote cs = some (inside, after)) :
    cs = inside ++ after ∧ after.head? ≠ some quote ∧
      ∀ post, post.head? ≠ some quote → untilQuote quote (inside ++ post) = some (inside, post) := by
  induction cs using untilQuote.induct quote generalizing inside after with
  | case1 => simp [untilQuote] at ends
  | case2 =>
    simp only [untilQuote, if_true, Option.some.injEq, Prod.mk.injEq] at ends
    rcases ends with ⟨rfl, rfl⟩
    refine ⟨rfl, by simp, fun post other => ?_⟩
    cases post with
    | nil => simp [untilQuote]
    | cons d post =>
      have : d ≠ quote := fun same => other (by rw [same]; rfl)
      simp [untilQuote, this]
  | case3 c different => simp [untilQuote, different] at ends
  | case4 rest ih =>
    simp only [untilQuote, if_true, Option.map_eq_some_iff, Prod.exists, Prod.mk.injEq] at ends
    obtain ⟨inside, after, found, rfl, rfl⟩ := ends
    obtain ⟨splits, next, again⟩ := ih found
    refine ⟨by rw [splits]; rfl, next, fun post other => ?_⟩
    simp [untilQuote, again post other]
  | case5 d rest different =>
    simp only [untilQuote, if_true, different, if_false, Option.some.injEq,
      Prod.mk.injEq] at ends
    rcases ends with ⟨rfl, rfl⟩
    refine ⟨rfl, by simpa using different, fun post other => ?_⟩
    cases post with
    | nil => simp [untilQuote]
    | cons e post =>
      have : e ≠ quote := fun same => other (by rw [same]; rfl)
      simp [untilQuote, this]
  | case6 c d rest different ih =>
    simp only [untilQuote, different, if_false, Option.map_eq_some_iff, Prod.exists,
      Prod.mk.injEq] at ends
    obtain ⟨inside, after, found, rfl, rfl⟩ := ends
    obtain ⟨splits, next, again⟩ := ih found
    refine ⟨by rw [splits]; rfl, next, fun post other => ?_⟩
    have more := again post other
    cases inside with
    | nil =>
      have shorter := length_of_untilQuote found
      rw [splits] at shorter
      exact absurd shorter (Nat.lt_irrefl _)
    | cons e inside =>
      simp only [List.cons_append] at more ⊢
      simp [untilQuote, different, more]

/-- Text that gives the token before it no other end than some other text does. -/
def Ends (rest post : List Char) : Prop := post.head? = rest.head? ∨ Apart post

theorem symbol_splits {cs rest : List Char} {s : Symbol} (found : symbol? cs = some (s, rest)) :
    cs = s.text.toList ++ rest ∧
      ∀ post, Ends rest post → symbol? (s.text.toList ++ post) = some (s, post) := by
  unfold symbol? at found
  split at found <;> cases found
  all_goals
    refine ⟨rfl, fun post ends => ?_⟩
    rcases ends with same | apart
    · cases post with
      | nil => rfl
      | cons d post =>
        cases rest with
        | nil => cases same
        | cons e rest => cases same; simp_all [symbol?, Symbol.text]
    · rcases apart.cases with rfl | ⟨c, more, rfl, rfl | rfl | rfl⟩ <;> rfl

theorem Apart.not_word {cs : List Char} (apart : Apart cs) (c : Char) (member : c ∈ cs.head?) :
    isWordChar c = false := by
  rcases apart c member with rfl | rfl | rfl <;> rfl

theorem takeWhile_word {word post : List Char} (letters : ∀ c ∈ word, isWordChar c)
    (other : ∀ c ∈ post.head?, isWordChar c = false) :
    (word ++ post).takeWhile isWordChar = word := by
  rw [List.takeWhile_append_of_pos letters]
  cases post with
  | nil => simp
  | cons c post => simp [other c rfl]

theorem dropWhile_word {word post : List Char} (letters : ∀ c ∈ word, isWordChar c)
    (other : ∀ c ∈ post.head?, isWordChar c = false) :
    (word ++ post).dropWhile isWordChar = post := by
  rw [List.dropWhile_append_of_pos letters]
  cases post with
  | nil => rfl
  | cons c post => simp [other c rfl]

/-- A token's text is what it takes from the front, and gives the token before any text that ends
it as well. -/
theorem Starts.splits {c : Char} {cs rest : List Char} {found : Lexeme}
    (starts : Starts c cs found rest) :
    ∃ more, found.text.toList = c :: more ∧ cs = more ++ rest ∧
      ∀ post, Ends rest post → Starts c (more ++ post) found post := by
  cases starts with
  | opening is => exact ⟨[], by rw [is]; rfl, rfl, fun post _ => .opening is⟩
  | closing is => exact ⟨[], by rw [is]; rfl, rfl, fun post _ => .closing is⟩
  | comma is => exact ⟨[], by rw [is]; rfl, rfl, fun post _ => .comma is⟩
  | @quoted inside after is ends =>
    obtain ⟨splits, next, again⟩ := untilQuote_splits ends
    refine ⟨inside, String.toList_ofList, splits, fun post apart => .quoted is (again post ?_)⟩
    rcases apart with same | apart
    · rw [same]; exact next
    · intro same
      rcases apart c same with rfl | rfl | rfl <;> exact absurd is (by decide)
  | @symbol s rest is =>
    obtain ⟨splits, again⟩ := symbol_splits is
    cases spelled : s.text.toList with
    | nil => cases s <;> cases spelled
    | cons d more =>
      rw [spelled, List.cons_append, List.cons.injEq] at splits
      rcases splits with ⟨rfl, splits⟩
      refine ⟨more, spelled, splits, fun post apart => .symbol ?_⟩
      have := again post apart
      rwa [spelled] at this
  | word is =>
    refine ⟨cs.takeWhile isWordChar, String.toList_ofList, ?_, fun post apart => ?_⟩
    · exact (List.takeWhile_append_dropWhile).symm
    · have letters := List.all_eq_true.mp (List.all_takeWhile (l := cs) (p := isWordChar))
      have other : ∀ d ∈ post.head?, isWordChar d = false := by
        intro d member
        rcases apart with same | apart
        · have stopped := List.head?_dropWhile_not isWordChar cs
          rw [← same, Option.mem_def.mp member] at stopped
          exact stopped
        · exact apart.not_word d member
      have read : Starts c (cs.takeWhile isWordChar ++ post) _ _ := .word is
      rwa [takeWhile_word letters other, dropWhile_word letters other] at read

/-- The tokens at the front of a text that starts at a position, and where and what the text after
them is. -/
inductive Lexes : Nat → List Char → List Token → Nat → List Char → Prop
  | done {n : Nat} {rest : List Char} : Lexes n rest [] n rest
  | blank {n m : Nat} {c : Char} {cs rest : List Char} {ts : List Token}
      (is : Text.isBlank c = true) (more : Lexes (n + c.utf8Size) cs ts m rest) :
      Lexes n (c :: cs) ts m rest
  | token {n m : Nat} {c : Char} {cs mid rest : List Char} {ts : List Token} {found : Lexeme}
      (is : Text.isBlank c = false) (starts : Starts c cs found mid)
      (more : Lexes (n + found.text.utf8ByteSize) mid ts m rest) :
      Lexes n (c :: cs) (⟨found, n, n + found.text.utf8ByteSize⟩ :: ts) m rest

theorem Lexes.append {n m k : Nat} {cs mid rest : List Char} {ts us : List Token}
    (first : Lexes n cs ts m mid) (last : Lexes m mid us k rest) :
    Lexes n cs (ts ++ us) k rest := by
  induction first with
  | done => exact last
  | blank is _ ih => exact .blank is (ih last)
  | token is starts _ ih => exact .token is starts (ih last)

theorem lexes_of_tokensFrom {n : Nat} {cs : List Char} {ts : List Token}
    (read : tokensFrom n cs = .ok ts) : ∃ m, Lexes n cs ts m [] := by
  induction n, cs using tokensFrom.induct generalizing ts with
  | case1 n =>
    rw [tokensFrom] at read
    cases read
    exact ⟨n, .done⟩
  | case2 n c more is ih =>
    rw [tokensFrom, if_pos is] at read
    obtain ⟨m, lexes⟩ := ih read
    exact ⟨m, .blank is lexes⟩
  | case3 n c more is ih =>
    rw [tokensFrom, if_neg is] at read
    cases found : lexeme n c more with
    | error fault => rw [found] at read; cases read
    | ok reading =>
      cases rest : tokensFrom (n + reading.found.text.utf8ByteSize) reading.rest with
      | error fault => rw [found] at read; simp [bind, Except.bind, rest] at read
      | ok us =>
        rw [found] at read
        simp only [bind, Except.bind, rest, pure, Except.pure, Except.ok.injEq] at read
        obtain ⟨m, lexes⟩ := ih reading.found reading.rest reading.shorter rest
        rw [← read]
        exact ⟨m, .token (by simpa using is) (found_lexeme_iff.mp ⟨reading.shorter, found⟩) lexes⟩

theorem tokensFrom_of_lexes {n m : Nat} {cs : List Char} {ts : List Token}
    (lexes : Lexes n cs ts m []) : tokensFrom n cs = .ok ts := by
  generalize finish : ([] : List Char) = rest at lexes
  induction lexes with
  | done => subst finish; rw [tokensFrom]
  | blank is _ ih => rw [tokensFrom, if_pos is]; exact ih finish
  | token is starts _ ih =>
    obtain ⟨shorter, read⟩ := found_lexeme_iff.mpr starts
    rw [tokensFrom, if_neg (by simp [is]), read]
    simp [bind, Except.bind, ih finish, pure, Except.pure]

/-- The tokens of a text wherever it stands before text that stays apart, counted from where it
stands. -/
def Spelled (text : List Char) (ts : List Token) : Prop :=
  ∀ n post, Apart post →
    Lexes n (text ++ post) (ts.map (Token.shift n)) (n + bytes text) post

theorem Lexes.spelled {n m : Nat} {cs rest : List Char} {ts : List Token}
    (lexes : Lexes n cs ts m rest) :
    ∃ text us, cs = text ++ rest ∧ m = n + bytes text ∧ ts = us.map (Token.shift n) ∧
      Spelled text us := by
  induction lexes with
  | done => exact ⟨[], [], rfl, rfl, rfl, fun n post apart => .done⟩
  | @blank n m c cs rest ts is more ih =>
    obtain ⟨text, us, splits, stops, same, spelled⟩ := ih
    refine ⟨c :: text, us.map (Token.shift c.utf8Size), ?_, ?_, ?_, ?_⟩
    · rw [splits]; rfl
    · rw [stops, bytes_cons, Nat.add_assoc]
    · rw [Token.shift_all, same]
    · intro k post apart
      rw [Token.shift_all, bytes_cons, ← Nat.add_assoc]
      exact .blank is (spelled _ post apart)
  | @token n m c cs mid rest ts found is starts more ih =>
    obtain ⟨text, us, splits, stops, same, spelled⟩ := ih
    obtain ⟨inside, letters, front, again⟩ := starts.splits
    have size : found.text.utf8ByteSize = c.utf8Size + bytes inside := by
      rw [utf8ByteSize_eq_bytes, letters, bytes_cons]
    refine ⟨c :: inside ++ text, ⟨found, 0, found.text.utf8ByteSize⟩ ::
      us.map (Token.shift found.text.utf8ByteSize), ?_, ?_, ?_, ?_⟩
    · rw [front, splits, List.cons_append, List.cons_append, List.append_assoc]
    · rw [stops, size, bytes_append, bytes_cons, Nat.add_assoc]
    · rw [List.map_cons, Token.shift_all, same]; rfl
    · intro k post apart
      have ends : Ends mid (text ++ post) := by
        cases text with
        | nil => exact .inr apart
        | cons d text => exact .inl (by rw [splits]; rfl)
      have rest := spelled (k + found.text.utf8ByteSize) post apart
      have stop : k + bytes (c :: inside ++ text) =
          k + found.text.utf8ByteSize + bytes text := by
        rw [size, bytes_append, bytes_cons]
        omega
      rw [stop, List.map_cons, Token.shift_all, List.append_assoc, List.cons_append]
      exact .token is (again (text ++ post) ends) rest

theorem spelled_of_tokensFrom {cs : List Char} {ts : List Token}
    (read : tokensFrom 0 cs = .ok ts) : Spelled cs ts := by
  obtain ⟨m, lexes⟩ := lexes_of_tokensFrom read
  obtain ⟨text, us, splits, -, same, spelled⟩ := lexes.spelled
  rw [List.append_nil] at splits
  rw [Token.shift_none] at same
  rw [splits, same]
  exact spelled

theorem Spelled.tokensFrom {cs : List Char} {ts : List Token} (spelled : Spelled cs ts) :
    tokensFrom 0 cs = .ok ts := by
  have lexes := spelled 0 [] apart_nil
  rw [List.append_nil, Token.shift_none] at lexes
  exact tokensFrom_of_lexes lexes

theorem spelled_nil : Spelled [] [] := fun _ _ _ => .done

theorem spelled_blank {cs : List Char} {ts : List Token} (spelled : Spelled cs ts) :
    Spelled (' ' :: cs) (ts.map (Token.shift 1)) := by
  intro n post apart
  have rest := spelled (n + 1) post apart
  rw [Token.shift_all, bytes_cons, ← Nat.add_assoc]
  exact .blank rfl rest

theorem spelled_cons {c : Char} {more cs : List Char} {ts : List Token} {found : Lexeme}
    (is : Text.isBlank c = false) (letters : found.text.toList = c :: more)
    (starts : ∀ post, Apart post → Starts c (more ++ (cs ++ post)) found (cs ++ post))
    (spelled : Spelled cs ts) :
    Spelled (c :: more ++ cs)
      (⟨found, 0, bytes (c :: more)⟩ :: ts.map (Token.shift (bytes (c :: more)))) := by
  intro n post apart
  have size : found.text.utf8ByteSize = bytes (c :: more) := by
    rw [utf8ByteSize_eq_bytes, letters]
  have rest := spelled (n + found.text.utf8ByteSize) post apart
  rw [List.map_cons, Token.shift_all, bytes_append, ← Nat.add_assoc, ← size, List.append_assoc,
    List.cons_append]
  exact .token is (starts post apart) rest

theorem spelled_opening {cs : List Char} {ts : List Token} (spelled : Spelled cs ts) :
    Spelled ('(' :: cs) (⟨.opening, 0, 1⟩ :: ts.map (Token.shift 1)) :=
  @spelled_cons '(' [] cs ts .opening rfl rfl (fun _ _ => .opening rfl) spelled

theorem spelled_closing {cs : List Char} {ts : List Token} (spelled : Spelled cs ts) :
    Spelled (')' :: cs) (⟨.closing, 0, 1⟩ :: ts.map (Token.shift 1)) :=
  @spelled_cons ')' [] cs ts .closing rfl rfl (fun _ _ => .closing rfl) spelled

theorem spelled_comma {cs : List Char} {ts : List Token} (spelled : Spelled cs ts) :
    Spelled (',' :: cs) (⟨.comma, 0, 1⟩ :: ts.map (Token.shift 1)) :=
  @spelled_cons ',' [] cs ts .comma rfl rfl (fun _ _ => .comma rfl) spelled

theorem Spelled.append {front back : List Char} {ts us : List Token}
    (first : Spelled front ts) (last : Spelled back us)
    (apart : ∀ post, Apart post → Apart (back ++ post)) :
    Spelled (front ++ back) (ts ++ us.map (Token.shift (bytes front))) := by
  intro n post stays
  have left := first n (back ++ post) (apart post stays)
  have right := last (n + bytes front) post stays
  rw [List.map_append, Token.shift_all, bytes_append, ← Nat.add_assoc, List.append_assoc]
  exact left.append right

theorem Starts.spelled {c : Char} {more rest : List Char} {found : Lexeme}
    (is : Text.isBlank c = false) (letters : found.text.toList = c :: more)
    (starts : Starts c (more ++ rest) found rest) :
    Spelled (c :: more) [⟨found, 0, bytes (c :: more)⟩] := by
  obtain ⟨inside, same, -, again⟩ := starts.splits
  rw [letters, List.cons.injEq] at same
  rcases same with ⟨-, rfl⟩
  have alone : Spelled (c :: more ++ []) _ :=
    spelled_cons is letters (fun post apart => again post (.inr apart)) spelled_nil
  rwa [List.append_nil] at alone

theorem Lexes.split {n m : Nat} {cs rest : List Char} {ts us : List Token} {u : Token}
    (lexes : Lexes n cs (ts ++ u :: us) m rest) :
    ∃ mid after, Lexes n cs ts u.start mid ∧ Lexes u.start mid [u] u.stop after ∧
      (∃ c cs, mid = c :: cs ∧ Text.isBlank c = false ∧ Starts c cs u.lexeme after) ∧
      Lexes u.stop after us m rest := by
  generalize whole : ts ++ u :: us = all at lexes
  induction lexes generalizing ts with
  | done => simp at whole
  | blank is _ ih =>
    obtain ⟨mid, after, first, here, head, last⟩ := ih whole
    exact ⟨mid, after, .blank is first, here, head, last⟩
  | @token n m c cs after rest all found is starts more ih =>
    cases ts with
    | nil =>
      cases whole
      exact ⟨c :: cs, after, .done, .token is starts .done, ⟨c, cs, rfl, is, starts⟩, more⟩
    | cons t ts =>
      cases whole
      obtain ⟨mid, behind, first, here, head, last⟩ := ih rfl
      exact ⟨mid, behind, .token is starts first, here, head, last⟩

end Filter

end StoreGateway

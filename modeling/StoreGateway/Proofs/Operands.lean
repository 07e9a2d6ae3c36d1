import StoreGateway.Proofs.Literals
import StoreGateway.Proofs.Phrase

/-! Texts that read as operands and relations: literals, placeholders, calls and the words between
them. -/

namespace StoreGateway.Filter

variable {params : Params}

theorem skipNot_other {t : Token} {rest : List Token} (other : t.isKeyword "not" = false) :
    skipNot (t :: rest) = (false, t :: rest) := by
  simp [skipNot, other]

theorem relates_word {w : List Char} {r : Relation} (is : IsWord w)
    (known : relationOfWord? (String.ofList w) = some r)
    (other : Text.asciiLower (String.ofList w) ≠ "not") : Relates w r := by
  refine ⟨is.trimmed, _, spelled_word is, fun n field rest => ⟨?_, ?_⟩⟩
  · exact skipNot_other (not_isKeyword_word _ _ other)
  · exact found_parseRelation_iff.mpr ⟨_, _, rfl, .inr (.inl ⟨_, rfl, known, rfl⟩)⟩

theorem relates_symbol (s : Symbol) {c : Comparator} (known : comparatorOfSymbol? s = some c) :
    Relates s.text.toList (.compare c) := by
  have spelled : Spelled s.text.toList [⟨.symbol s, 0, bytes s.text.toList⟩] := by
    have alone : symbol? (s.text.toList ++ []) = some (s, []) := by cases s <;> rfl
    cases s <;> exact Starts.spelled rfl rfl (.symbol alone)
  refine ⟨?_, _, spelled, fun n field rest => ⟨?_, ?_⟩⟩
  · cases s <;> decide
  · exact skipNot_other rfl
  · exact found_parseRelation_iff.mpr ⟨_, _, rfl, .inl ⟨s, c, rfl, known, rfl, rfl⟩⟩

theorem relates_entityWord (c : Comparator) : Relates c.entityWord.toList (.compare c) := by
  cases c <;> exact relates_word (by decide) rfl (by decide)

theorem relates_documentWord (c : Comparator) : Relates c.documentWord.toList (.compare c) := by
  cases c
  · exact relates_symbol .equal rfl
  · exact relates_symbol .angles rfl
  · exact relates_symbol .greater rfl
  · exact relates_symbol .greaterEqual rfl
  · exact relates_symbol .less rfl
  · exact relates_symbol .lessEqual rfl

theorem relates_in : Relates "IN".toList .oneOf :=
  relates_word (by decide) rfl (by decide)

theorem relates_isNull : Relates "IS NULL".toList .isNull := by
  have spelled := (spelled_word (w := "IS".toList) (by decide)).blank_append
    (spelled_word (w := "NULL".toList) (by decide))
  refine ⟨by decide, _, spelled, fun n field rest => ⟨?_, ?_⟩⟩
  · exact skipNot_other rfl
  · refine found_parseRelation_iff.mpr ⟨_, _, rfl, .inr (.inr ⟨_, rfl, rfl, rfl, ?_⟩)⟩
    cases rest with
    | nil => exact ⟨by simp, rfl⟩
    | cons t rest => exact ⟨by simp, rfl⟩

theorem relates_isNotNull : Relates "IS NOT NULL".toList .isNotNull := by
  have spelled := (spelled_word (w := "IS".toList) (by decide)).blank_append
    ((spelled_word (w := "NOT".toList) (by decide)).blank_append
      (spelled_word (w := "NULL".toList) (by decide)))
  refine ⟨by decide, _, spelled, fun n field rest => ⟨?_, ?_⟩⟩
  · exact skipNot_other rfl
  · refine found_parseRelation_iff.mpr ⟨_, _, rfl, .inr (.inr ⟨_, rfl, rfl, rfl, ?_⟩)⟩
    exact ⟨Nat.lt_succ_of_lt (Nat.lt_succ_self _), rfl⟩

theorem untilQuote_double (quote : Char) (cs : List Char) :
    untilQuote quote (Literal.double quote cs ++ [quote]) =
      some (Literal.double quote cs ++ [quote], []) := by
  induction cs with
  | nil => simp [Literal.double, untilQuote]
  | cons c cs ih =>
    by_cases same : c = quote
    · rw [same, Literal.double_cons_quote, List.cons_append, List.cons_append, untilQuote,
        if_pos rfl, if_pos rfl, ih]
      rfl
    · rw [Literal.double_cons_other same, List.cons_append]
      cases rest : Literal.double quote cs ++ [quote] with
      | nil => simp at rest
      | cons d ds =>
        rw [rest] at ih
        rw [untilQuote, if_neg same, ih]
        rfl

theorem spelled_quote (text : String) :
    Spelled (Literal.quote text).toList
      [⟨.quoted (Literal.quote text), 0, bytes (Literal.quote text).toList⟩] := by
  have starts : Starts '\'' (Literal.double '\'' text.toList ++ ['\''] ++ [])
      (.quoted (Literal.quote text)) [] := by
    have read : Starts '\'' (Literal.double '\'' text.toList ++ ['\''])
        (.quoted (String.ofList ('\'' :: (Literal.double '\'' text.toList ++ ['\''])))) [] :=
      .quoted (.inl rfl) (untilQuote_double '\'' text.toList)
    rw [← Literal.toList_quote, String.ofList_toList] at read
    rwa [List.append_nil]
  have spelled : Spelled ('\'' :: (Literal.double '\'' text.toList ++ ['\'']))
      [⟨.quoted (Literal.quote text), 0, _⟩] :=
    starts.spelled rfl (Literal.toList_quote text)
  rwa [← Literal.toList_quote] at spelled

theorem readsAs_quote (text : String) :
    ReadsAs params (Literal.quote text).toList (.literal (Literal.quote text)) := by
  have trimmed : Trimmed (Literal.quote text).toList := by
    rw [Literal.toList_quote]
    refine ⟨by simp, fun c member => ?_, fun c member => ?_⟩
    · cases member; rfl
    · rw [← List.cons_append, List.getLast?_append] at member
      cases member; rfl
  refine ⟨trimmed, _, spelled_quote text, fun pre post rest _ => ?_⟩
  rw [moved_cons, moved_nil]
  exact .quoted rfl

theorem readsAs_word {w : String} (is : IsWord w.toList)
    (plain : ∀ c ∈ w.toList.head?, Params.isSigil c = false)
    (unnamed : params.lookup? w = none) : ReadsAs params w.toList (.literal w) := by
  refine ⟨is.trimmed, _, spelled_word is, fun pre post rest bare => ?_⟩
  have operand : wordOperand params w = .literal w := by
    unfold wordOperand
    split
    · rfl
    · next c more same =>
      have := plain c (by rw [same]; rfl)
      simp [this, unnamed]
  rw [String.ofList_toList]
  have read : ReadsOperand ⟨pre ++ w.toList ++ post, params⟩
      (⟨.word w, bytes pre + 0, bytes pre + bytes w.toList⟩ :: rest) (wordOperand params w) rest :=
    .word rfl bare
  rwa [operand] at read

theorem readsAs_sigil {name : List Char} (letters : ∀ c ∈ name, isWordChar c = true) :
    ReadsAs params ('@' :: name) (.param (String.ofList name)) := by
  have is : IsWord ('@' :: name) := by
    refine ⟨by simp, fun c member => ?_⟩
    rcases List.mem_cons.mp member with rfl | member
    · decide
    · exact letters c member
  refine ⟨is.trimmed, _, spelled_word is, fun pre post rest bare => ?_⟩
  have operand : wordOperand params (String.ofList ('@' :: name)) = .param (String.ofList name) := by
    rw [wordOperand, String.toList_ofList]
    rfl
  have read : ReadsOperand ⟨pre ++ '@' :: name ++ post, params⟩
      (⟨.word (String.ofList ('@' :: name)), bytes pre + 0, bytes pre + bytes ('@' :: name)⟩ :: rest)
      (wordOperand params (String.ofList ('@' :: name))) rest :=
    .word rfl bare
  rwa [operand] at read

theorem plain_head {c : Char} {cs : List Char} (plain : Params.isSigil c = false) :
    ∀ d ∈ (c :: cs).head?, Params.isSigil d = false := by
  intro d member
  cases member
  exact plain

theorem isWordChar_of_isDigit {c : Char} (digit : c.isDigit = true) :
    isWordChar c = true ∧ Params.isSigil c = false := by
  constructor
  · have small : c.toNat < 128 := by
      have bounds := (Char.isDigit_iff_toNat.mp digit).2
      have nine : '9'.toNat = 57 := rfl
      omega
    simp [isWordChar, Text.isAlphanumeric, small, Char.isAlphanum, digit]
  · cases sigil : Params.isSigil c with
    | false => rfl
    | true =>
      simp only [Params.isSigil, Bool.or_eq_true, beq_iff_eq] at sigil
      rcases sigil with rfl | rfl <;> exact absurd digit (by decide)

theorem isWord_of_numeric {cs : List Char} (numeric : Literal.looksNumeric cs = true) :
    IsWord cs ∧ ∀ c ∈ cs.head?, Params.isSigil c = false := by
  obtain ⟨digit, all⟩ := Bool.and_eq_true_iff.mp numeric
  have kind : ∀ c ∈ cs, isWordChar c = true ∧ Params.isSigil c = false := by
    intro c member
    have shape := List.all_eq_true.mp all c member
    rcases Bool.or_eq_true_iff.mp shape with is | is
    · exact isWordChar_of_isDigit is
    · have marks : ".-+eE".toList.all (fun d => isWordChar d && !Params.isSigil d) = true := by
        decide
      simpa using List.all_eq_true.mp marks c (List.contains_iff_mem.mp is)
  refine ⟨⟨?_, fun c member => (kind c member).1⟩, fun c member => ?_⟩
  · intro empty
    rw [empty] at digit
    cases digit
  · exact (kind c (List.mem_of_mem_head? member)).2

theorem looksNumeric_int (i : Int) : Literal.looksNumeric (toString i).toList = true := by
  have digits := Literal.isDigit_toDigits i.natAbs
  obtain ⟨c, more, same⟩ := List.exists_cons_of_ne_nil (@Nat.toDigits_ne_nil i.natAbs 10)
  have first : c ∈ Nat.toDigits 10 i.natAbs := by rw [same]; exact List.mem_cons_self
  rw [Literal.looksNumeric_iff, Literal.IsNumeral, Literal.toList_toString_int]
  have all : ∀ d ∈ Nat.toDigits 10 i.natAbs, Literal.isNumeral d = true := fun d member => by
    rw [Literal.isNumeral, digits d member, Bool.true_or]
  split
  · refine ⟨⟨c, List.mem_cons_of_mem _ first, digits c first⟩, fun d member => ?_⟩
    rcases List.mem_cons.mp member with rfl | member
    · rfl
    · exact all d member
  · exact ⟨⟨c, first, digits c first⟩, all⟩

/-- A literal is a word without a sigil, or quoted. -/
theorem text_cases (v : Value) :
    (IsWord (Literal.text v).toList ∧
      ∀ c ∈ (Literal.text v).toList.head?, Params.isSigil c = false) ∨
    ∃ s, Literal.text v = Literal.quote s := by
  cases v with
  | null => exact .inl ⟨by decide, plain_head rfl⟩
  | bool b => cases b <;> exact .inl ⟨by decide, plain_head rfl⟩
  | int i => exact .inl (isWord_of_numeric (looksNumeric_int i))
  | float x => exact .inl (isWord_of_numeric (Binary64.looksNumeric_toText x))
  | string s => exact .inr ⟨s, rfl⟩
  | array items => exact .inr ⟨Json.write (.array items), rfl⟩
  | object members => exact .inr ⟨Json.write (.object members), rfl⟩

theorem readsAs_text (v : Value) : ReadsAs [] (Literal.text v).toList (.literal (Literal.text v)) := by
  rcases text_cases v with ⟨is, plain⟩ | ⟨s, same⟩
  · exact readsAs_word is plain rfl
  · rw [same]
    exact readsAs_quote s

/-- Text that reads as a call: a word and parentheses that balance at its end. -/
structure IsCall (raw : List Char) : Prop where
  trimmed : Trimmed raw
  tokens : ∃ w n more, Spelled raw (⟨.word w, 0, n⟩ :: more) ∧
    more.head?.map Token.lexeme = some .opening ∧ callEnd 0 more = some (bytes raw, [])

theorem IsCall.readsAs {raw : List Char} (is : IsCall raw) :
    ReadsAs params raw (.call (String.ofList raw)) := by
  obtain ⟨w, n, more, spelled, opens, ends⟩ := is.tokens
  refine ⟨is.trimmed, _, spelled, fun pre post rest _ => ?_⟩
  have moves := (callEnd_moved (bytes pre) rest ends).2
  have opens' : (moved (bytes pre) more rest).head?.map Token.lexeme = some .opening := by
    cases more with
    | nil => cases opens
    | cons u more => exact opens
  rw [← slice_whole params pre raw post]
  rw [moved_cons]
  exact .call rfl opens' moves

theorem callEnd_splits {depth stop : Nat} {ts after : List Token}
    (ends : callEnd depth ts = some (stop, after)) :
    ∃ inside u, ts = inside ++ u :: after ∧ u.stop = stop ∧ u.lexeme = .closing ∧
      callEnd depth (inside ++ [u]) = some (stop, []) := by
  induction ts generalizing depth with
  | nil => cases ends
  | cons t ts ih =>
    simp only [callEnd] at ends
    split at ends
    · next is =>
      obtain ⟨inside, u, rfl, same, closes, again⟩ := ih ends
      exact ⟨t :: inside, u, rfl, same, closes, by simp only [List.cons_append, callEnd, is, again]⟩
    · next is =>
      split at ends
      · next shallow =>
        cases ends
        exact ⟨[], t, rfl, rfl, is, by simp only [List.nil_append, callEnd, is, if_pos shallow]⟩
      · next deep =>
        obtain ⟨inside, u, rfl, same, closes, again⟩ := ih ends
        exact ⟨t :: inside, u, rfl, same, closes,
          by simp only [List.cons_append, callEnd, is, if_neg deep, again]⟩
    · next opens closes =>
      obtain ⟨inside, u, rfl, same, closing, again⟩ := ih ends
      exact ⟨t :: inside, u, rfl, same, closing, by simp only [List.cons_append, callEnd, again]⟩

theorem callEnd_shift {d depth stop : Nat} {ts : List Token}
    (ends : callEnd depth (ts.map (Token.shift d)) = some (d + stop, [])) :
    callEnd depth ts = some (stop, []) := by
  induction ts generalizing depth with
  | nil => cases ends
  | cons t ts ih =>
    simp only [List.map_cons, callEnd, Token.shift_lexeme] at ends ⊢
    split at ends
    · exact ih ends
    · split at ends
      · next shallow =>
        rw [if_pos shallow]
        cases ts with
        | nil =>
          have same : d + t.stop = d + stop := congrArg Prod.fst (Option.some.inj ends)
          rw [Nat.add_left_cancel same]
        | cons u ts => cases congrArg Prod.snd (Option.some.inj ends)
      · next deep =>
        rw [if_neg deep]
        exact ih ends
    · exact ih ends

theorem wordOperand_cases (params : Params) (w : String) :
    wordOperand params w = .literal w ∨ ∃ name, wordOperand params w = .param name := by
  unfold wordOperand
  split
  · exact .inl rfl
  · split
    · exact .inr ⟨_, rfl⟩
    · split
      · exact .inr ⟨_, rfl⟩
      · exact .inl rfl

theorem kind_of_reads {source : Source} {ts rest : List Token} {o : Operand}
    (reads : ReadsOperand source ts o rest) :
    (∃ raw, o = .literal raw) ∨ (∃ name, o = .param name) ∨ ∃ raw, o = .call raw := by
  cases reads with
  | quoted is => exact .inl ⟨_, rfl⟩
  | call is opens ends => exact .inr (.inr ⟨_, rfl⟩)
  | word is bare =>
    rcases wordOperand_cases source.params _ with literal | param
    · exact .inl ⟨_, literal⟩
    · exact .inr (.inl param)

theorem trimmed_closed {front after rest : List Char} {c : Char} (shown : Text.isBlank c = false)
    (starts : c :: after = front ++ ')' :: rest) : Trimmed (front ++ [')']) := by
  refine ⟨by simp, fun d member => ?_, fun d member => ?_⟩
  · cases front with
    | nil =>
      cases member
      rfl
    | cons first front =>
      cases member
      rw [List.cons_append, List.cons.injEq] at starts
      rw [← starts.1]
      exact shown
  · rw [List.getLast?_concat] at member
    cases member
    rfl

theorem isCall_of_spelled {body : List Char} {t : Token} {inside us : List Token} {w : String}
    (trimmed : Trimmed body) (spelled : Spelled body us) (is : t.lexeme = .word w)
    (ends : callEnd 0 inside = some (t.start + bytes body, []))
    (opens : inside.head?.map Token.lexeme = some .opening)
    (same : t :: inside = us.map (Token.shift t.start)) : IsCall body := by
  cases us with
  | nil => cases same
  | cons v us =>
    rw [List.map_cons, List.cons.injEq] at same
    obtain ⟨first, others⟩ := same
    have zero : v.start = 0 := by
      have := congrArg Token.start first
      change t.start = t.start + v.start at this
      omega
    have word : v.lexeme = .word w := by
      rw [← is, first]
      rfl
    rw [others] at opens ends
    refine ⟨trimmed, w, v.stop, us, ?_, ?_, callEnd_shift ends⟩
    · rw [← word, ← zero]
      exact spelled
    · rw [← opens]
      cases us <;> rfl

/-- A call cut out of a text reads as a call by itself. -/
theorem isCall_of_reads {text : List Char} {all front ts rest : List Token} {raw : String}
    (read : tokensFrom 0 text = .ok all) (whole : all = front ++ ts)
    (reads : ReadsOperand ⟨text, params⟩ ts (.call raw) rest) : IsCall raw.toList := by
  generalize call : Operand.call raw = o at reads
  cases reads with
  | quoted is => cases call
  | word is bare =>
    rcases wordOperand_cases params _ with literal | ⟨name, param⟩
    · cases call.trans literal
    · cases call.trans param
  | @call t more after w stop is opens ends =>
    obtain ⟨inside, u, rfl, rfl, closes, again⟩ := callEnd_splits ends
    obtain ⟨m, lexes⟩ := lexes_of_tokensFrom read
    rw [whole] at lexes
    obtain ⟨mid, behind, before, here, ⟨c, cs, rfl, shown, -⟩, last⟩ := lexes.split
    obtain ⟨mid', post, between, closing, ⟨e, es, rfl, -, ending⟩, -⟩ := last.split
    rw [closes] at ending
    cases ending with
    | closing closer =>
      obtain ⟨body, us, splits, stops, same, spelled⟩ := ((here.append between).append closing).spelled
      obtain ⟨pre, -, source, start, -, -⟩ := before.spelled
      obtain ⟨front', -, cut, -, -, -⟩ := (here.append between).spelled
      rw [closer] at cut
      have body_eq : body = front' ++ [')'] := by
        have both := splits.symm.trans cut
        rw [← List.singleton_append, ← List.append_assoc] at both
        exact List.append_cancel_right both
      have slice : raw = String.ofList body := by
        have here := slice_whole params pre body post
        rw [Nat.zero_add] at start
        rw [Operand.call.inj call, stops, start, ← here, source, splits, List.append_assoc]
      rw [slice, String.toList_ofList]
      rw [stops] at again
      refine isCall_of_spelled (body_eq ▸ trimmed_closed shown cut) spelled is again ?_ same
      rw [← opens]
      cases inside <;> rfl

end StoreGateway.Filter

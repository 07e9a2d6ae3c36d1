import StoreGateway.Gateway.Basic
import StoreGateway.Proofs.Coerced

/-! Clauses that are filters by themselves, joined into the filter of a request. -/

namespace StoreGateway

namespace Filter

theorem Lexes.behind_blanks {front cs rest : List Char} {n m : Nat} {ts : List Token}
    (blank : ∀ c ∈ front, Text.isBlank c = true) (lexes : Lexes (n + bytes front) cs ts m rest) :
    Lexes n (front ++ cs) ts m rest := by
  induction front generalizing n with
  | nil => exact lexes
  | cons c front ih =>
    refine .blank (blank c List.mem_cons_self) (ih (fun d member => ?_) ?_)
    · exact blank d (List.mem_cons_of_mem c member)
    · rwa [Nat.add_assoc, ← bytes_cons]

theorem lexes_blanks {back : List Char} (blank : ∀ c ∈ back, Text.isBlank c = true) (n : Nat) :
    Lexes n back [] (n + bytes back) [] := by
  have none : Lexes (n + bytes back) [] [] (n + bytes back) [] := .done
  have all := none.behind_blanks blank
  rwa [List.append_nil] at all

theorem no_token_of_blank {d : Char} (blank : Text.isBlank d = true) :
    isWordChar d = false ∧ d ∉ ['\'', '"', '=', '>'] := by
  have each : ∀ n ∈ blankCodes, isWordChar (Char.ofNat n) = false ∧
      Char.ofNat n ∉ ['\'', '"', '=', '>'] := by decide +kernel
  have here := each _ (mem_blankCodes blank)
  rwa [Char.ofNat_toNat] at here

theorem Starts.before_blanks {c : Char} {cs back : List Char} {found : Lexeme}
    (starts : Starts c cs found []) (blank : ∀ d ∈ back, Text.isBlank d = true) :
    Starts c (cs ++ back) found back := by
  cases back with
  | nil => rwa [List.append_nil]
  | cons d back =>
    obtain ⟨word, marks⟩ := no_token_of_blank (blank d List.mem_cons_self)
    simp only [List.mem_cons, List.not_mem_nil, or_false, not_or] at marks
    generalize ended : ([] : List Char) = rest at starts
    cases starts with
    | opening is =>
      subst ended
      exact .opening is
    | closing is =>
      subst ended
      exact .closing is
    | comma is =>
      subst ended
      exact .comma is
    | @quoted inside after is ends =>
      subst ended
      obtain ⟨splits, -, again⟩ := untilQuote_splits ends
      rw [splits, List.append_nil]
      refine .quoted is (again (d :: back) fun same => ?_)
      cases same
      rcases is with rfl | rfl
      · exact marks.1 rfl
      · exact marks.2.1 rfl
    | @symbol s rest is =>
      subst ended
      refine .symbol ?_
      obtain ⟨splits, -⟩ := symbol_splits is
      rw [List.append_nil] at splits
      rw [← List.cons_append, splits]
      cases s <;> simp [Symbol.text, symbol?, marks]
    | word is =>
      have all : cs.takeWhile isWordChar = cs := by
        have splits := @List.takeWhile_append_dropWhile _ isWordChar cs
        rwa [← ended, List.append_nil] at splits
      have letters : ∀ e ∈ cs, isWordChar e = true := by
        rw [← all]
        exact List.all_eq_true.mp List.all_takeWhile
      have other : ∀ e ∈ (d :: back).head?, isWordChar e = false := fun e member => by
        cases member
        exact word
      have read : Starts c (cs ++ d :: back) _ _ := .word is
      rw [takeWhile_word letters other, dropWhile_word letters other] at read
      rwa [all]

theorem Lexes.before_blanks {n m : Nat} {cs back : List Char} {ts : List Token}
    (lexes : Lexes n cs ts m []) (blank : ∀ c ∈ back, Text.isBlank c = true) :
    Lexes n (cs ++ back) ts (m + bytes back) [] := by
  generalize ended : ([] : List Char) = rest at lexes
  induction lexes with
  | done =>
    subst ended
    exact lexes_blanks blank _
  | blank is _ ih => exact .blank is (ih ended)
  | @token n m c cs mid rest ts found is starts more ih =>
    subst ended
    obtain ⟨inside, -, splits, again⟩ := starts.splits
    have rest := ih rfl
    refine @Lexes.token _ _ c _ (mid ++ back) _ _ _ is ?_ rest
    cases mid with
    | nil => exact starts.before_blanks blank
    | cons d mid =>
      rw [splits]
      change Starts c ((inside ++ d :: mid) ++ back) found _
      rw [List.append_assoc]
      exact again _ (.inl rfl)

theorem trimChars_splits (cs : List Char) :
    ∃ front back, cs = front ++ Text.trimChars cs ++ back ∧
      (∀ c ∈ front, Text.isBlank c = true) ∧ ∀ c ∈ back, Text.isBlank c = true := by
  let rest := cs.dropWhile Text.isBlank
  refine ⟨cs.takeWhile Text.isBlank, (rest.reverse.takeWhile Text.isBlank).reverse, ?_, ?_, ?_⟩
  · have ended : Text.trimChars cs ++ (rest.reverse.takeWhile Text.isBlank).reverse = rest := by
      change (rest.reverse.dropWhile Text.isBlank).reverse ++ _ = rest
      rw [← List.reverse_append, List.takeWhile_append_dropWhile, List.reverse_reverse]
    rw [List.append_assoc, ended, List.takeWhile_append_dropWhile]
  · exact List.all_eq_true.mp List.all_takeWhile
  · intro c member
    exact List.all_eq_true.mp List.all_takeWhile c (List.mem_reverse.mp member)

theorem spelled_of_trimmed {cs front back : List Char} {ts : List Token}
    (splits : cs = front ++ Text.trimChars cs ++ back)
    (blank : ∀ c ∈ front, Text.isBlank c = true) (blank' : ∀ c ∈ back, Text.isBlank c = true)
    (read : tokensFrom 0 (Text.trimChars cs) = .ok ts) :
    Spelled cs (ts.map (Token.shift (bytes front))) := by
  have inside := spelled_of_tokensFrom read (bytes front) [] apart_nil
  rw [List.append_nil] at inside
  have whole : Lexes 0 (front ++ (Text.trimChars cs ++ back)) (ts.map (Token.shift (bytes front)))
      (bytes front + bytes (Text.trimChars cs) + bytes back) [] := by
    refine Lexes.behind_blanks blank ?_
    rw [Nat.zero_add]
    exact inside.before_blanks blank'
  rw [← List.append_assoc, ← splits] at whole
  exact spelled_of_tokensFrom (tokensFrom_of_lexes whole)

theorem within_of_tokensFrom {cs : List Char} {ts : List Token} (read : tokensFrom 0 cs = .ok ts) :
    ∀ t ∈ ts, (∃ front back, cs = front ++ back ∧ t.start = bytes front) ∧ t.stop ≤ bytes cs := by
  intro t member
  obtain ⟨before, after, rfl⟩ := List.append_of_mem member
  obtain ⟨m, lexes⟩ := lexes_of_tokensFrom read
  obtain ⟨mid, behind, first, here, -, last⟩ := lexes.split
  obtain ⟨front, -, splits, start, -, -⟩ := first.spelled
  obtain ⟨text, -, cut, stop, -, -⟩ := here.spelled
  rw [Nat.zero_add] at start
  refine ⟨⟨front, mid, splits, start⟩, ?_⟩
  rw [splits, cut, stop, start, bytes_append, bytes_append]
  omega

variable {params : Params}

theorem reads_group_of_parse {text : String} {f : Filter} (parsed : parse params text = .ok (some f)) :
    Reads params .not ('(' :: (text.toList ++ [')'])) f := by
  obtain ⟨-, ts, read, derives⟩ := parse_eq_ok_iff.mp parsed
  obtain ⟨front, back, splits, blank, blank'⟩ := trimChars_splits text.toList
  refine reads_parenthesised (spelled_of_trimmed splits blank blank' read) ?_
  intro pre post u rest closes
  have within := within_of_tokensFrom read
  have whole : pre ++ text.toList ++ post =
      (pre ++ front) ++ Text.trimChars text.toList ++ (back ++ post) := by
    refine (congrArg (fun cs => pre ++ cs ++ post) splits).trans ?_
    simp only [List.append_assoc]
  have agrees : Agrees ⟨Text.trimChars text.toList, params⟩ ⟨pre ++ text.toList ++ post, params⟩
      (bytes pre + bytes front) ts := by
    refine ⟨rfl, fun t member v member' => ?_⟩
    obtain ⟨⟨before, after, cut, start⟩, -⟩ := within t member
    rw [whole, start, ← bytes_append]
    exact slice_inside params params (pre ++ front) _ (back ++ post) before after cut
      (within v member').2
  have ends : Closes (u :: rest) := congrArg some closes
  have moves := derives.move agrees ends
  rwa [moved_shift]

def conjoined (first : Filter) (more : List Filter) : Filter := more.foldl (join .and) first

theorem holdsBy_conjoined (leaf : Comparison → Except EvalFault Bool) (first : Filter)
    (more : List Filter) :
    (conjoined first more).holdsBy leaf = allHoldBy leaf (first :: more) := by
  induction more generalizing first with
  | nil => exact (bothHold_true _).symm
  | cons next more ih =>
    change (conjoined (join .and first next) more).holdsBy leaf = _
    rw [ih]
    change bothHold (holdsBy leaf (join .and first next)) _ =
      bothHold (holdsBy leaf first) (bothHold (holdsBy leaf next) _)
    rw [holdsBy_join_and, bothHold_assoc]

theorem comparisons_operandsOf (op : Connective) (f : Filter) :
    comparisonsAll (f.operandsOf op) = f.comparisons := by
  cases f with
  | test c => exact List.append_nil _
  | combine inner children =>
    by_cases same : inner = op
    · rw [operandsOf, if_pos same, comparisons]
    · rw [operandsOf, if_neg same]
      exact List.append_nil _

theorem comparisonsAll_append (fs gs : List Filter) :
    comparisonsAll (fs ++ gs) = comparisonsAll fs ++ comparisonsAll gs := by
  induction fs with
  | nil => rfl
  | cons f fs ih => rw [List.cons_append, comparisonsAll, comparisonsAll, ih, List.append_assoc]

theorem comparisons_join (op : Connective) (left right : Filter) :
    (join op left right).comparisons = left.comparisons ++ right.comparisons := by
  rw [join, comparisons, comparisonsAll_append, comparisons_operandsOf, comparisons_operandsOf]

theorem comparisons_conjoined (first : Filter) (more : List Filter) :
    (conjoined first more).comparisons = comparisonsAll (first :: more) := by
  induction more generalizing first with
  | nil => exact (List.append_nil _).symm
  | cons next more ih =>
    change (conjoined (join .and first next) more).comparisons = _
    rw [ih, comparisonsAll, comparisonsAll, comparisonsAll, comparisons_join, List.append_assoc]

def grouped (clause : String × Filter) : List Char × Filter :=
  ('(' :: (clause.1.toList ++ [')']), clause.2)

theorem text_grouped (clause : String × Filter) :
    "(" ++ clause.1 ++ ")" = String.ofList (grouped clause).1 := by
  apply String.toList_inj.mp
  simp [grouped]

theorem toList_joined (first : String × Filter) (more : List (String × Filter)) :
    (" AND ".intercalate (((first :: more).map Prod.fst).map fun c => "(" ++ c ++ ")")).toList =
      (grouped first).1 ++ chainText "AND".toList (more.map grouped) := by
  have chain := @toList_intercalate_chain "AND".toList " AND " (by simp)
    (String.ofList (grouped first).1) (more.map grouped)
  rw [String.toList_ofList] at chain
  rw [← chain, List.map_map, List.map_map, List.map_cons]
  have rest : more.map ((fun c => "(" ++ c ++ ")") ∘ Prod.fst) =
      more.map ((fun next => String.ofList next.1) ∘ grouped) :=
    List.map_congr_left fun clause _ => text_grouped clause
  rw [rest, ← text_grouped first]
  rfl

theorem chainFilter_grouped (first : Filter) (more : List (String × Filter)) :
    chainFilter .and first (more.map grouped) = conjoined first (more.map Prod.snd) := by
  rw [chainFilter, List.foldl_map, conjoined, List.foldl_map]
  rfl

/-- Clauses that are filters by themselves join to the conjunction of these. -/
theorem parse_joinClauses {first : String × Filter} {more : List (String × Filter)}
    (each : ∀ c ∈ first :: more, parse params c.1 = .ok (some c.2)) :
    ∃ text, Gateway.joinClauses ((first :: more).map Prod.fst) = some text ∧
      parse params text = .ok (some (conjoined first.2 (more.map Prod.snd))) := by
  cases more with
  | nil => exact ⟨first.1, rfl, each first List.mem_cons_self⟩
  | cons second more =>
    have reads : ∀ c ∈ first :: second :: more, Reads params .not (grouped c).1 (grouped c).2 :=
      fun c member => reads_group_of_parse (each c member)
    have whole := (@links_and "AND".toList (by decide) rfl).reads
      ((second :: more).map grouped) (reads first List.mem_cons_self) (by
        intro next member
        obtain ⟨c, inside, rfl⟩ := List.mem_map.mp member
        exact reads c (List.mem_cons_of_mem first inside))
    rw [← toList_joined, chainFilter_grouped] at whole
    refine ⟨_, rfl, ?_⟩
    have parsed := whole.toOr.parse
    rwa [String.ofList_toList] at parsed

end Filter

end StoreGateway

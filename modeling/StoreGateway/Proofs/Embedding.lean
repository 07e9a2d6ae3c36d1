import StoreGateway.Proofs.Grammar

/-! A filter text reads as the same filter when it stands in parentheses in another text. -/

namespace StoreGateway.Filter

variable {source source' : Source} {d : Nat} {tail : List Token}

theorem dropBytes_bytes_add (front back : List Char) (n : Nat) :
    dropBytes (bytes front + n) (front ++ back) = dropBytes n back := by
  induction front with
  | nil => simp
  | cons c front ih =>
    have size : 0 < c.utf8Size := Char.utf8Size_pos c
    obtain ⟨k, same⟩ : ∃ k, bytes (c :: front) + n = k + 1 :=
      ⟨bytes (c :: front) + n - 1, by rw [bytes_cons]; omega⟩
    rw [List.cons_append, same, dropBytes, ← same, ← ih]
    · congr 1
      rw [bytes_cons]
      omega
    · omega

theorem takeBytes_append {n : Nat} {front : List Char} (back : List Char)
    (inside : n ≤ bytes front) : takeBytes n (front ++ back) = takeBytes n front := by
  induction front generalizing n with
  | nil =>
    cases Nat.le_zero.mp inside
    cases back <;> rfl
  | cons c front ih =>
    cases n with
    | zero => rfl
    | succ n =>
      rw [List.cons_append, takeBytes, takeBytes, ih]
      · rw [bytes_cons] at inside
        omega
      · omega
      · omega

theorem takeBytes_bytes (text : List Char) : takeBytes (bytes text) text = text := by
  induction text with
  | nil => rfl
  | cons c text ih =>
    have size : 0 < c.utf8Size := Char.utf8Size_pos c
    obtain ⟨k, same⟩ : ∃ k, bytes (c :: text) = k + 1 :=
      ⟨bytes (c :: text) - 1, by rw [bytes_cons]; omega⟩
    rw [same, takeBytes, ← same, bytes_cons, Nat.add_sub_cancel_left, ih]
    omega

theorem slice_inside (params params' : Params) (pre text post front back : List Char) {stop : Nat}
    (splits : text = front ++ back) (inside : stop ≤ bytes text) :
    Source.slice ⟨pre ++ text ++ post, params⟩ (bytes pre + bytes front) (bytes pre + stop) =
      Source.slice ⟨text, params'⟩ (bytes front) stop := by
  have same : bytes pre + stop - (bytes pre + bytes front) = stop - bytes front := by omega
  have short : stop - bytes front ≤ bytes back := by
    rw [splits, bytes_append] at inside
    omega
  unfold Source.slice
  simp only
  rw [same, List.append_assoc, dropBytes_bytes_add, splits, List.append_assoc]
  have here := dropBytes_bytes_add front (back ++ post) 0
  have alone := dropBytes_bytes_add front back 0
  rw [Nat.add_zero] at here alone
  rw [here, alone]
  have whole (cs : List Char) : dropBytes 0 cs = cs := by cases cs <;> rfl
  rw [whole, whole, takeBytes_append post short]

theorem slice_whole (params : Params) (pre text post : List Char) :
    Source.slice ⟨pre ++ text ++ post, params⟩ (bytes pre) (bytes pre + bytes text) =
      String.ofList text := by
  have cut := slice_inside params params pre text post [] text rfl (Nat.le_refl _)
  rw [bytes_nil, Nat.add_zero] at cut
  rw [cut]
  cases text with
  | nil => rfl
  | cons c text => rw [Source.slice, Nat.sub_zero, dropBytes, takeBytes_bytes]; simp

theorem callEnd_suffix {depth stop : Nat} {ts after : List Token}
    (ends : callEnd depth ts = some (stop, after)) : after <:+ ts := by
  induction ts generalizing depth with
  | nil => cases ends
  | cons t ts ih =>
    simp only [callEnd] at ends
    split at ends
    · exact (ih ends).trans (List.suffix_cons t ts)
    · split at ends
      · cases ends; exact List.suffix_cons t _
      · exact (ih ends).trans (List.suffix_cons t ts)
    · exact (ih ends).trans (List.suffix_cons t ts)

theorem ReadsOperand.suffix {ts rest : List Token} {o : Operand}
    (reads : ReadsOperand source ts o rest) : rest <:+ ts := by
  cases reads with
  | quoted is => exact List.suffix_cons _ _
  | call is opens ends => exact (callEnd_suffix ends).trans (List.suffix_cons _ _)
  | word is bare => exact List.suffix_cons _ _

theorem ReadsItems.suffix {ts rest : List Token} {items : List Operand}
    (reads : ReadsItems source ts items rest) : rest <:+ ts := by
  induction reads with
  | last first is => exact (List.suffix_cons _ _).trans first.suffix
  | more first is _ ih => exact ih.trans ((List.suffix_cons _ _).trans first.suffix)

theorem skipNot_suffix (ts : List Token) : (skipNot ts).2 <:+ ts := by
  unfold skipNot
  split
  · exact List.suffix_rfl
  · split
    · exact List.suffix_cons _ _
    · exact List.suffix_rfl

theorem parseNullCheck_suffix {is : Token} {ts rest : List Token} {r : Relation}
    (found : Found (parseNullCheck is ts) r rest) : rest <:+ ts := by
  obtain ⟨shorter, read⟩ := found
  unfold parseNullCheck at read
  split at read
  · split at read
    · split at read
      · cases read; exact (List.suffix_cons _ _).trans (List.suffix_cons _ _)
      · cases read
    · split at read
      · cases read; exact List.suffix_cons _ _
      · cases read
  · split at read
    · cases read; exact List.suffix_cons _ _
    · cases read
  · cases read

/-- What a relation can be: a symbol, one word, or a null check behind `is`. -/
theorem found_parseRelation_iff {field : String} {ts rest : List Token} {r : Relation} :
    Found (parseRelation field ts) r rest ↔
      ∃ t more, ts = t :: more ∧
        ((∃ s c, t.lexeme = .symbol s ∧ comparatorOfSymbol? s = some c ∧ r = .compare c ∧
            rest = more) ∨
          (∃ w, t.lexeme = .word w ∧ relationOfWord? w = some r ∧ rest = more) ∨
          (∃ w, t.lexeme = .word w ∧ relationOfWord? w = none ∧ Text.lowerCase w = "is" ∧
            Found (parseNullCheck t more) r rest)) := by
  cases ts with
  | nil =>
    constructor
    · rintro ⟨shorter, read⟩; cases read
    · rintro ⟨t, more, same, -⟩; cases same
  | cons t ts =>
    constructor
    · rintro ⟨shorter, read⟩
      refine ⟨t, ts, rfl, ?_⟩
      simp only [parseRelation] at read
      split at read
      · next s is =>
        split at read
        · next c found => cases read; exact .inl ⟨s, c, is, found, rfl, rfl⟩
        · cases read
      · next w is =>
        split at read
        · next found => cases read; exact .inr (.inl ⟨w, is, found, rfl⟩)
        · next none =>
          split at read
          · next here =>
            cases check : parseNullCheck t ts with
            | error fault => rw [check] at read; cases read
            | ok reading =>
              rcases reading with ⟨r', after, h⟩
              rw [check] at read
              cases read
              exact .inr (.inr ⟨w, is, none, here, h, rfl⟩)
          · cases read
      · cases read
    · rintro ⟨u, more, same, choice⟩
      cases same
      rcases t with ⟨found, start, stop⟩
      rcases choice with ⟨s, c, is, known, rfl, rfl⟩ | ⟨w, is, known, rfl⟩ |
        ⟨w, is, unknown, here, h, check⟩
      · cases is
        refine ⟨by simp, ?_⟩
        simp only [parseRelation]
        split
        · next other => rw [known] at other; cases other; rfl
        · next other => rw [known] at other; cases other
      · cases is
        refine ⟨by simp, ?_⟩
        simp only [parseRelation]
        split
        · next other => rw [known] at other; cases other; rfl
        · next other => rw [known] at other; cases other
      · cases is
        refine ⟨Nat.lt_succ_of_lt h, ?_⟩
        simp only [parseRelation]
        split
        · next other => rw [unknown] at other; cases other
        · simp only [here, if_true, check]; rfl

theorem parseRelation_suffix {field : String} {ts rest : List Token} {r : Relation}
    (found : Found (parseRelation field ts) r rest) : rest <:+ ts := by
  obtain ⟨t, more, rfl, ⟨s, c, -, -, -, rfl⟩ | ⟨w, -, -, rfl⟩ | ⟨w, -, -, -, check⟩⟩ :=
    found_parseRelation_iff.mp found
  · exact List.suffix_cons _ _
  · exact List.suffix_cons _ _
  · exact (parseNullCheck_suffix check).trans (List.suffix_cons _ _)

theorem ReadsComparison.suffix {field : String} {ts rest : List Token} {c : Comparison}
    (reads : ReadsComparison source field ts c rest) : rest <:+ ts := by
  cases reads with
  | nothing relation is => exact (parseRelation_suffix relation).trans (skipNot_suffix ts)
  | list relation is opens operands =>
    exact operands.suffix.trans <| (List.suffix_cons _ _).trans <|
      (parseRelation_suffix relation).trans (skipNot_suffix ts)
  | single relation takes alone operand =>
    exact operand.suffix.trans <| (parseRelation_suffix relation).trans (skipNot_suffix ts)

theorem Derives.suffix {rank : Rank} {ts rest : List Token} {f : Filter}
    (derives : Derives source rank ts f rest) : rest <:+ ts := by
  induction derives with
  | or _ _ first chain => exact chain.trans first
  | orEnd ends => exact List.suffix_rfl
  | orMore is _ _ next chain => exact (chain.trans next).trans (List.suffix_cons _ _)
  | and _ _ first chain => exact chain.trans first
  | andEnd ends => exact List.suffix_rfl
  | andMore is _ _ next chain => exact (chain.trans next).trans (List.suffix_cons _ _)
  | negation is _ inner => exact inner.trans (List.suffix_cons _ _)
  | plain bare _ inner => exact inner
  | group opens _ closes inner =>
    exact ((List.suffix_cons _ _).trans inner).trans (List.suffix_cons _ _)
  | comparison is reads => exact reads.suffix.trans (List.suffix_cons _ _)

/-- Calls between tokens read the same in another source that starts earlier. -/
def Agrees (source source' : Source) (d : Nat) (ts : List Token) : Prop :=
  source'.params = source.params ∧
    ∀ t ∈ ts, ∀ u ∈ ts,
      source'.slice (d + t.start) (d + u.stop) = source.slice t.start u.stop

theorem Agrees.of_suffix {ts us : List Token} (agrees : Agrees source source' d ts)
    (suffix : us <:+ ts) : Agrees source source' d us := by
  refine ⟨agrees.1, fun t inside u inside' => ?_⟩
  exact agrees.2 t (suffix.subset inside) u (suffix.subset inside')

def moved (d : Nat) (ts tail : List Token) : List Token := ts.map (Token.shift d) ++ tail

@[simp] theorem moved_cons (t : Token) (ts : List Token) :
    moved d (t :: ts) tail = t.shift d :: moved d ts tail := rfl

@[simp] theorem moved_nil : moved d [] tail = tail := rfl

@[simp] theorem moved_append (ts us : List Token) :
    moved d (ts ++ us) tail = moved d ts (moved d us tail) := by
  simp [moved]

@[simp] theorem moved_shift (n : Nat) (ts : List Token) :
    moved d (ts.map (Token.shift n)) tail = moved (d + n) ts tail := by
  rw [moved, Token.shift_all, moved]

@[simp] theorem Token.isKeyword_shift (keyword : String) (t : Token) :
    (t.shift d).isKeyword keyword = t.isKeyword keyword := rfl

def Closes (tail : List Token) : Prop := tail.head?.map Token.lexeme = some .closing

theorem Closes.cases (closes : Closes tail) :
    ∃ u rest, tail = u :: rest ∧ u.lexeme = .closing := by
  cases tail with
  | nil => cases closes
  | cons u rest => exact ⟨u, rest, rfl, Option.some.inj closes⟩

theorem callEnd_moved (d : Nat) (tail : List Token) {depth stop : Nat} {ts after : List Token}
    (ends : callEnd depth ts = some (stop, after)) :
    (∃ u ∈ ts, u.stop = stop) ∧
      callEnd depth (moved d ts tail) = some (d + stop, moved d after tail) := by
  induction ts generalizing depth with
  | nil => cases ends
  | cons t ts ih =>
    simp only [callEnd] at ends
    simp only [moved_cons, callEnd, Token.shift_lexeme]
    split at ends
    · next is =>
      obtain ⟨⟨u, inside, same⟩, again⟩ := ih ends
      exact ⟨⟨u, List.mem_cons_of_mem t inside, same⟩, again⟩
    · next is =>
      split at ends
      · next shallow =>
        cases ends
        rw [if_pos shallow]
        exact ⟨⟨t, List.mem_cons_self, rfl⟩, rfl⟩
      · next deep =>
        obtain ⟨⟨u, inside, same⟩, again⟩ := ih ends
        rw [if_neg deep]
        exact ⟨⟨u, List.mem_cons_of_mem t inside, same⟩, again⟩
    · next other closing =>
      obtain ⟨⟨u, inside, same⟩, again⟩ := ih ends
      exact ⟨⟨u, List.mem_cons_of_mem t inside, same⟩, again⟩

theorem ReadsOperand.move {ts rest : List Token} {o : Operand}
    (reads : ReadsOperand source ts o rest) (agrees : Agrees source source' d ts)
    (closes : Closes tail) : ReadsOperand source' (moved d ts tail) o (moved d rest tail) := by
  cases reads with
  | quoted is => exact .quoted is
  | @call t more rest w stop is opens ends =>
    obtain ⟨⟨u, inside, same⟩, again⟩ := callEnd_moved d tail ends
    have cut := agrees.2 t List.mem_cons_self u (List.mem_cons_of_mem t inside)
    rw [same] at cut
    rw [← cut]
    refine .call (t := t.shift d) is ?_ again
    cases more with
    | nil => cases opens
    | cons v more => exact opens
  | @word t rest w is bare =>
    rw [← agrees.1]
    refine .word (t := t.shift d) is ?_
    obtain ⟨u, more, rfl, closing⟩ := closes.cases
    cases rest with
    | nil => simp [closing]
    | cons v rest => exact bare

theorem ReadsItems.move {ts rest : List Token} {items : List Operand}
    (reads : ReadsItems source ts items rest) (agrees : Agrees source source' d ts)
    (closes : Closes tail) : ReadsItems source' (moved d ts tail) items (moved d rest tail) := by
  induction reads with
  | @last ts rest t item first is => exact .last (t := t.shift d) (first.move agrees closes) is
  | @more ts mid rest t item items first is others ih =>
    refine .more (t := t.shift d) (first.move agrees closes) is (ih (agrees.of_suffix ?_))
    exact (List.suffix_cons _ _).trans first.suffix

theorem skipNot_moved (d : Nat) (tail : List Token) {ts : List Token} (present : ts ≠ []) :
    skipNot (moved d ts tail) = ((skipNot ts).1, moved d (skipNot ts).2 tail) := by
  cases ts with
  | nil => exact absurd rfl present
  | cons t ts =>
    rw [moved_cons, skipNot, skipNot]
    by_cases is : t.isKeyword "not" = true
    · rw [if_pos is, if_pos (c := (t.shift d).isKeyword "not" = true) is]
    · rw [if_neg is, if_neg (c := (t.shift d).isKeyword "not" = true) is, moved_cons]

theorem Token.isKeyword_unique {t : Token} {first : String} (second : String)
    (one : t.isKeyword first = true) (other : first ≠ second) : t.isKeyword second = false := by
  unfold Token.isKeyword at one ⊢
  split at one
  · rw [beq_iff_eq.mp one]
    exact beq_false_of_ne other
  · cases one

theorem parseNullCheck_moved {is is' : Token} {ts rest : List Token} {r : Relation}
    (found : Found (parseNullCheck is ts) r rest) :
    Found (parseNullCheck is' (moved d ts tail)) r (moved d rest tail) := by
  obtain ⟨shorter, read⟩ := found
  unfold parseNullCheck at read
  split at read
  · next a b rest =>
    split at read
    · next negated =>
      split at read
      · next null =>
        cases read
        exact ⟨by simp only [moved_cons, List.length_cons]; omega, by
          simp [parseNullCheck, negated, null]⟩
      · cases read
    · next plain =>
      split at read
      · next null => cases read; exact ⟨by simp, by simp [parseNullCheck, plain, null]⟩
      · cases read
  · next a =>
    split at read
    · next null =>
      cases read
      have plain := Token.isKeyword_unique "not" null (by decide)
      cases tail with
      | nil => exact ⟨by simp, by simp [parseNullCheck, null]⟩
      | cons u tail => exact ⟨by simp, by simp [parseNullCheck, null, plain]⟩
    · cases read
  · cases read

theorem parseRelation_moved {field : String} {ts rest : List Token} {r : Relation}
    (found : Found (parseRelation field ts) r rest) :
    Found (parseRelation field (moved d ts tail)) r (moved d rest tail) := by
  obtain ⟨t, more, rfl, choice⟩ := found_parseRelation_iff.mp found
  refine found_parseRelation_iff.mpr ⟨t.shift d, moved d more tail, rfl, ?_⟩
  rcases choice with ⟨s, c, is, known, rfl, rfl⟩ | ⟨w, is, known, rfl⟩ |
    ⟨w, is, unknown, here, check⟩
  · exact .inl ⟨s, c, is, known, rfl, rfl⟩
  · exact .inr (.inl ⟨w, is, known, rfl⟩)
  · exact .inr (.inr ⟨w, is, unknown, here, parseNullCheck_moved check⟩)

theorem ReadsComparison.present {field : String} {ts rest : List Token} {c : Comparison}
    (reads : ReadsComparison source field ts c rest) : ts ≠ [] := by
  intro empty
  subst empty
  obtain ⟨shorter, -⟩ := found_parseComparison_iff.mpr ⟨c, rfl, reads⟩
  exact absurd shorter (Nat.not_lt_zero _)

theorem ReadsComparison.move {field : String} {ts rest : List Token} {c : Comparison}
    (reads : ReadsComparison source field ts c rest) (agrees : Agrees source source' d ts)
    (closes : Closes tail) :
    ReadsComparison source' field (moved d ts tail) c (moved d rest tail) := by
  have skips := skipNot_moved d tail reads.present
  cases reads with
  | @nothing rest r relation is =>
    have again : ReadsComparison source' field (moved d ts tail) _ (moved d rest tail) :=
      .nothing (by rw [skips]; exact parseRelation_moved relation) is
    rwa [skips] at again
  | @list mid rest t r items relation is opens operands =>
    have reach : mid <:+ ts := (List.suffix_cons _ _).trans <|
      (parseRelation_suffix relation).trans (skipNot_suffix ts)
    have again : ReadsComparison source' field (moved d ts tail) _ (moved d rest tail) :=
      .list (t := t.shift d) (by rw [skips]; exact parseRelation_moved relation) is opens
        (operands.move (agrees.of_suffix reach) closes)
    rwa [skips] at again
  | @single mid rest r o relation takes alone operand =>
    have reach : mid <:+ ts := (parseRelation_suffix relation).trans (skipNot_suffix ts)
    have again : ReadsComparison source' field (moved d ts tail) _ (moved d rest tail) :=
      .single (by rw [skips]; exact parseRelation_moved relation) takes alone
        (operand.move (agrees.of_suffix reach) closes)
    rwa [skips] at again

theorem Derives.primary_present {ts rest : List Token} {f : Filter}
    (derives : Derives source .primary ts f rest) : 1 < ts.length := by
  cases derives with
  | group opens inner closes =>
    obtain ⟨shorter, -⟩ := inner.parses
    simp only [List.length_cons] at shorter ⊢
    omega
  | @comparison t ts rest field c is reads =>
    have := List.length_pos_iff.mpr reads.present
    simp only [List.length_cons]
    omega

theorem Derives.move {rank : Rank} {ts rest : List Token} {f : Filter}
    (derives : Derives source rank ts f rest) (agrees : Agrees source source' d ts)
    (closes : Closes tail) : Derives source' rank (moved d ts tail) f (moved d rest tail) := by
  induction derives with
  | or first _ ih ih' => exact .or (ih agrees) (ih' (agrees.of_suffix first.suffix))
  | @orEnd left rest ends =>
    refine .orEnd ?_
    obtain ⟨u, more, rfl, closing⟩ := closes.cases
    cases rest with
    | nil => simp [orJoiner?, Token.isKeyword, closing]
    | cons t rest => exact ends
  | @orMore t ts mid rest left right f joined is next _ ih ih' =>
    have reach := List.suffix_cons t ts
    exact .orMore (t := t.shift d) is (ih (agrees.of_suffix reach))
      (ih' (agrees.of_suffix (next.suffix.trans reach)))
  | and first _ ih ih' => exact .and (ih agrees) (ih' (agrees.of_suffix first.suffix))
  | @andEnd left rest ends =>
    refine .andEnd ?_
    obtain ⟨u, more, rfl, closing⟩ := closes.cases
    cases rest with
    | nil => simp [isAnd, Token.isKeyword, closing]
    | cons t rest => exact ends
  | @andMore t ts mid rest left right f is next _ ih ih' =>
    have reach := List.suffix_cons t ts
    exact .andMore (t := t.shift d) is (ih (agrees.of_suffix reach))
      (ih' (agrees.of_suffix (next.suffix.trans reach)))
  | @negation t next ts rest f is inner ih =>
    have again := ih (agrees.of_suffix (List.suffix_cons _ _))
    rw [moved_cons] at again
    rw [moved_cons, moved_cons]
    exact .negation is again
  | @plain ts rest f bare inner ih =>
    refine .plain ?_ (ih agrees)
    intro t next more same
    match ts, inner.primary_present with
    | a :: b :: ts, _ =>
      cases same
      exact bare a b ts rfl
  | @group t u ts rest f opens inner closing ih =>
    exact .group (t := t.shift d) (u := u.shift d) opens
      (ih (agrees.of_suffix (List.suffix_cons _ _))) closing
  | @comparison t ts rest field c is reads =>
    exact .comparison (t := t.shift d) is
      (reads.move (agrees.of_suffix (List.suffix_cons _ _)) closes)

end StoreGateway.Filter

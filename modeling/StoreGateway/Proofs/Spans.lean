import StoreGateway.Proofs.Equality
import StoreGateway.Proofs.Phrase

/-! The spans of tokens: the parts of a text that they take up, and that what they leave is blank. -/

namespace StoreGateway

/-- A token's text is what stands between two positions of a text, which the token counts in bytes.
Positions are within the text, before a character of it or at its end. -/
def Token.Spans (source : String) (t : Token) : Prop :=
  ∃ start stop : source.Pos, start.offset.byteIdx = t.start ∧ stop.offset.byteIdx = t.stop ∧
    start < stop ∧ source.extract start stop = t.lexeme.text

/-- A byte of the text is the token's. -/
def Token.Covers (t : Token) (n : Nat) : Prop := t.start ≤ n ∧ n < t.stop

namespace Filter

theorem Lexes.begins {n m : Nat} {cs rest : List Char} {ts : List Token} {t : Token}
    (lexes : Lexes n cs ts m rest) (member : t ∈ ts) :
    ∃ c more behind, t.lexeme.text.toList = c :: more ∧ Text.isBlank c = false ∧
      Starts c (more ++ behind) t.lexeme behind := by
  obtain ⟨before, after, rfl⟩ := List.append_of_mem member
  obtain ⟨-, behind, -, -, ⟨c, cs, -, is, starts⟩, -⟩ := lexes.split
  obtain ⟨more, spelled, rfl, -⟩ := starts.splits
  exact ⟨c, more, behind, spelled, is, starts⟩

theorem Lexes.cut {n m : Nat} {cs rest : List Char} {ts : List Token} {t : Token}
    (lexes : Lexes n cs ts m rest) (member : t ∈ ts) :
    ∃ front behind, cs = front ++ t.lexeme.text.toList ++ behind ∧ t.start = n + bytes front ∧
      t.stop = t.start + bytes t.lexeme.text.toList := by
  obtain ⟨before, after, rfl⟩ := List.append_of_mem member
  obtain ⟨mid, behind, first, here, ⟨c, cs, rfl, -, starts⟩, -⟩ := lexes.split
  obtain ⟨front, -, splits, start, -, -⟩ := first.spelled
  obtain ⟨text, -, taken, stop, -, -⟩ := here.spelled
  obtain ⟨more, spelled, rfl, -⟩ := starts.splits
  rw [← List.cons_append, ← spelled] at taken
  obtain rfl := List.append_cancel_right taken
  refine ⟨front, behind, ?_, start, stop⟩
  rw [splits, ← List.cons_append, ← spelled, List.append_assoc]

theorem Lexes.start_lt_stop {n m : Nat} {cs rest : List Char} {ts : List Token} {t : Token}
    (lexes : Lexes n cs ts m rest) (member : t ∈ ts) : t.start < t.stop := by
  obtain ⟨-, -, -, -, stop⟩ := lexes.cut member
  obtain ⟨c, more, -, spelled, -⟩ := lexes.begins member
  have present := c.utf8Size_pos
  rw [stop, spelled, bytes_cons]
  omega

theorem Lexes.disjoint {n m : Nat} {cs rest : List Char} {ts : List Token}
    (lexes : Lexes n cs ts m rest) : ts.Pairwise fun t u => t.stop ≤ u.start := by
  induction lexes with
  | done => exact List.Pairwise.nil
  | blank _ _ ih => exact ih
  | token _ _ more ih =>
    refine List.pairwise_cons.mpr ⟨fun u member => ?_, ih⟩
    obtain ⟨front, -, -, start, -⟩ := more.cut member
    rw [start]
    exact Nat.le_add_right _ _

theorem Lexes.ascending {n m : Nat} {cs rest : List Char} {ts : List Token}
    (lexes : Lexes n cs ts m rest) : (ts.map Token.start).Pairwise (· < ·) := by
  rw [List.pairwise_map]
  refine lexes.disjoint.imp_of_mem fun member _ before => ?_
  exact Nat.lt_of_lt_of_le (lexes.start_lt_stop member) before

theorem exists_behind {token mid front behind : List Char} {c : Char}
    (splits : token ++ mid = front ++ c :: behind) (outside : bytes token ≤ bytes front) :
    ∃ between, front = token ++ between ∧ mid = between ++ c :: behind := by
  rcases List.append_eq_append_iff.mp splits with ⟨between, same, rest⟩ | ⟨between, same, rest⟩
  · exact ⟨between, same, rest⟩
  · cases between with
    | nil => exact ⟨[], by simpa using same.symm, by simpa using rest.symm⟩
    | cons d between =>
      have present := d.utf8Size_pos
      rw [same, bytes_append, bytes_cons] at outside
      omega

/-- A character that no token covers is blank. -/
theorem Lexes.blank_outside {n m : Nat} {cs front behind : List Char} {c : Char} {ts : List Token}
    (lexes : Lexes n cs ts m []) (splits : cs = front ++ c :: behind)
    (outside : ∀ t ∈ ts, ¬ t.Covers (n + bytes front)) : Text.isBlank c = true := by
  generalize finish : ([] : List Char) = rest at lexes
  -- the induction goes from the front: a token that does not cover the character stands before it
  induction lexes generalizing front with
  | done =>
    rw [← finish] at splits
    simp at splits
  | @blank n m d cs rest ts is more ih =>
    cases front with
    | nil =>
      cases splits
      exact is
    | cons e front =>
      cases splits
      refine ih rfl (fun t member covered => outside t member ?_) finish
      rwa [bytes_cons, ← Nat.add_assoc]
  | @token n m d cs mid rest ts found is starts more ih =>
    obtain ⟨letters, spelled, inside, -⟩ := starts.splits
    have size := utf8ByteSize_eq_bytes found.text
    rw [inside, ← List.cons_append, ← spelled] at splits
    have before : bytes found.text.toList ≤ bytes front := by
      have here := outside _ List.mem_cons_self
      simp only [Token.Covers] at here
      omega
    obtain ⟨between, rfl, rest⟩ := exists_behind splits before
    refine ih rest (fun t member covered => outside t (List.mem_cons_of_mem _ member) ?_) finish
    rwa [bytes_append, ← size, ← Nat.add_assoc]

theorem Lexes.spelled_alone {n m : Nat} {cs rest : List Char} {ts : List Token} {t : Token}
    (lexes : Lexes n cs ts m rest) (member : t ∈ ts) :
    Spelled t.lexeme.text.toList [⟨t.lexeme, 0, bytes t.lexeme.text.toList⟩] := by
  obtain ⟨c, more, behind, spelled, is, starts⟩ := lexes.begins member
  rw [spelled]
  exact starts.spelled is spelled

theorem spelled_spaced (found : List Lexeme)
    (each : ∀ l ∈ found, Spelled l.text.toList [⟨l, 0, bytes l.text.toList⟩]) :
    ∃ ts, Spelled (" ".intercalate (found.map Lexeme.text)).toList ts ∧
      ts.map Token.lexeme = found := by
  induction found with
  | nil => exact ⟨[], spelled_nil, rfl⟩
  | cons l more ih =>
    have first := each l List.mem_cons_self
    obtain ⟨ts, spelled, same⟩ := ih fun k member => each k (List.mem_cons_of_mem l member)
    cases more with
    | nil => exact ⟨_, by simpa using first, rfl⟩
    | cons k more =>
      have text : (" ".intercalate ((l :: k :: more).map Lexeme.text)).toList =
          l.text.toList ++ ' ' :: (" ".intercalate ((k :: more).map Lexeme.text)).toList := by
        rw [List.map_cons, List.map_cons, String.intercalate_cons_cons, String.toList_append,
          String.toList_append, List.append_assoc]
        rfl
      rw [text]
      exact ⟨_, first.blank_append spelled, by simp [Function.comp_def, same]⟩

theorem spans_append {t : Token} {before after : String} (starts : t.start = before.utf8ByteSize)
    (stops : t.stop = t.start + t.lexeme.text.utf8ByteSize) (present : t.start < t.stop) :
    t.Spans (before ++ t.lexeme.text ++ after) := by
  have stop : t.stop = (before ++ t.lexeme.text).utf8ByteSize := by
    rw [stops, starts, String.utf8ByteSize_append]
  refine ⟨⟨before.rawEndPos, ?_⟩, ⟨(before ++ t.lexeme.text).rawEndPos, ?_⟩, starts.symm, stop.symm,
    ?_, ?_⟩
  · exact String.Pos.Raw.isValid_iff_exists_append.mpr
      ⟨before, t.lexeme.text ++ after, String.append_assoc, rfl⟩
  · exact String.Pos.Raw.isValid_iff_exists_append.mpr ⟨_, after, rfl, rfl⟩
  · change before.utf8ByteSize < (before ++ t.lexeme.text).utf8ByteSize
    rwa [← starts, ← stop]
  · have taken : (before.toByteArray ++ (t.lexeme.text.toByteArray ++ after.toByteArray)).extract
        (before.utf8ByteSize + 0) (before.utf8ByteSize + t.lexeme.text.utf8ByteSize) =
          t.lexeme.text.toByteArray :=
      ByteArray.extract_append_size_add.trans (ByteArray.extract_append_eq_left rfl)
    rw [← String.toByteArray_inj, String.toByteArray_extract]
    change (before ++ t.lexeme.text ++ after).toByteArray.extract before.utf8ByteSize
      (before ++ t.lexeme.text).utf8ByteSize = _
    rw [String.utf8ByteSize_append, String.append_assoc, String.toByteArray_append,
      String.toByteArray_append]
    exact taken

theorem Lexes.spans {source : String} {m : Nat} {rest : List Char} {ts : List Token} {t : Token}
    (lexes : Lexes 0 source.toList ts m rest) (member : t ∈ ts) : t.Spans source := by
  obtain ⟨front, behind, splits, start, stop⟩ := lexes.cut member
  have whole : source = String.ofList front ++ t.lexeme.text ++ String.ofList behind := by
    rw [← String.toList_inj]
    simpa using splits
  rw [whole]
  refine spans_append ?_ ?_ (lexes.start_lt_stop member)
  · rw [start, Nat.zero_add, utf8ByteSize_eq_bytes, String.toList_ofList]
  · rw [stop, utf8ByteSize_eq_bytes]

theorem Lexes.blank_at {source : String} {m : Nat} {ts : List Token} {p : source.Pos}
    (lexes : Lexes 0 source.toList ts m []) (inside : p ≠ source.endPos)
    (outside : ∀ t ∈ ts, ¬ t.Covers p.offset.byteIdx) : Text.isBlank (p.get inside) = true := by
  have splits := p.splits_next_right inside
  have cut := congrArg String.toList splits.eq_append
  rw [String.toList_append, String.toList_append, String.toList_singleton] at cut
  have offset : p.offset.byteIdx = bytes (source.sliceTo p).copy.toList := by
    rw [splits.offset_eq_rawEndPos, String.byteIdx_rawEndPos, utf8ByteSize_eq_bytes]
  refine lexes.blank_outside cut fun t member => ?_
  rw [Nat.zero_add, ← offset]
  exact outside t member

/-- The tokens of a text stand one behind the other without overlapping, each of them between two
positions of the text that its own text is between, and what no token covers is blank. Their texts,
joined by single blanks, give the same tokens again. -/
theorem tokens_span_source {source : String} {ts : List Token} (read : tokenize source = .ok ts) :
    (∀ t ∈ ts, t.Spans source) ∧ (ts.map Token.start).Pairwise (· < ·) ∧
      ts.Pairwise (fun t u => t.stop ≤ u.start) ∧
      (∀ (p : source.Pos) (inside : p ≠ source.endPos),
        (∀ t ∈ ts, ¬ t.Covers p.offset.byteIdx) → Text.isBlank (p.get inside) = true) ∧
      ∃ us, tokenize (" ".intercalate (ts.map fun t => t.lexeme.text)) = .ok us ∧
        us.map Token.lexeme = ts.map Token.lexeme := by
  obtain ⟨m, lexes⟩ := lexes_of_tokensFrom read
  refine ⟨fun t member => lexes.spans member, lexes.ascending, lexes.disjoint,
    fun p inside outside => lexes.blank_at inside outside, ?_⟩
  obtain ⟨us, spelled, same⟩ := spelled_spaced (ts.map Token.lexeme) fun l member => by
    obtain ⟨t, inside, rfl⟩ := List.mem_map.mp member
    exact lexes.spelled_alone inside
  rw [List.map_map] at spelled
  exact ⟨us, spelled.tokensFrom, same⟩

theorem tokens_span_source_of_adjacent :
    let source := "é<=>'o''é' (x)"
    let string : Token := ⟨.quoted "'o''é'", 5, 12⟩
    let ts : List Token := [⟨.word "é", 0, 2⟩, ⟨.symbol .lessEqual, 2, 4⟩, ⟨.symbol .greater, 4, 5⟩,
      string, ⟨.opening, 13, 14⟩, ⟨.word "x", 14, 15⟩, ⟨.closing, 15, 16⟩]
    tokenize source = .ok ts ∧ string.Spans source ∧
      ∃ us, tokenize "é <= > 'o''é' ( x )" = .ok us ∧
        us.map Token.lexeme = ts.map Token.lexeme := by
  intro source string ts
  have read : tokenize source = .ok ts := by decide +kernel
  obtain ⟨spans, -, -, -, again⟩ := tokens_span_source read
  have inside : string ∈ ts := by decide
  exact ⟨read, spans string inside, again⟩

end Filter

end StoreGateway

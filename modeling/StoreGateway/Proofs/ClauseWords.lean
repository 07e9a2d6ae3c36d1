import StoreGateway.Proofs.DocumentAnswers
import StoreGateway.Proofs.Pieces
import StoreGateway.Proofs.WrittenPlans

/-!
Statements in which no word that starts a clause is taken for one. Such a word stands between
blanks, and what a statement is put together from has others there: fields are behind the name of
their collection, values behind a sigil, and parts of the ordering before a comma.
-/

namespace StoreGateway

open StoreGateway.Filter Text

namespace Text

def Unbroken (cs : List Char) : Prop := ∀ c ∈ cs, isBlank c = false

instance (cs : List Char) : Decidable (Unbroken cs) :=
  decidable_of_iff (cs.all (fun c => !isBlank c) = true) (by simp [Unbroken])

theorem unbroken_singleton {c : Char} (shown : isBlank c = false) : Unbroken [c] := by
  intro d member
  cases List.mem_singleton.mp member
  exact shown

theorem Unbroken.append {a b : List Char} (first : Unbroken a) (second : Unbroken b) :
    Unbroken (a ++ b) := by
  intro c member
  rcases List.mem_append.mp member with member | member
  · exact first c member
  · exact second c member

/-- The word stands in the text between blanks or an end of it, in some case. -/
def Alone (word cs : List Char) : Prop := ∃ piece ∈ cs.splitOnP isBlank, asciiUpper piece = word

theorem splitOnP_asciiUpper (cs : List Char) :
    (asciiUpper cs).splitOnP isBlank = (cs.splitOnP isBlank).map asciiUpper :=
  splitOnP_map isBlank Char.toUpper isBlank_toUpper cs

theorem lacks_of_not_alone {word cs : List Char} (unbroken : Unbroken word)
    (never : ¬ Alone word cs) (rest : List Char) :
    Lacks (' ' :: (word ++ ' ' :: rest)) (asciiUpper (' ' :: cs)) := by
  have space : isBlank ' ' = true := by decide
  have absent (front back : List Char) : front ++ ' ' :: (word ++ ' ' :: back) ≠ asciiUpper cs ∧
      word ++ ' ' :: back ≠ asciiUpper cs := by
    have stands : word ∉ (asciiUpper cs).splitOnP isBlank := by
      rw [splitOnP_asciiUpper]
      exact fun member => never (List.mem_map.mp member)
    refine ⟨fun same => stands ?_, fun same => stands ?_⟩
    · rw [← same, List.splitOnP_append_cons _ _ space, List.splitOnP_append_cons _ _ space,
        List.splitOnP_eq_singleton unbroken]
      simp
    · rw [← same, List.splitOnP_append_cons _ _ space, List.splitOnP_eq_singleton unbroken]
      simp
  rw [lacks_iff]
  rintro ⟨front, back, same⟩
  change _ = ' ' :: asciiUpper cs at same
  cases front with
  | nil =>
    refine (absent [] (rest ++ back)).2 ?_
    simpa using same
  | cons c front =>
    refine (absent front (rest ++ back)).1 ?_
    simpa using (List.cons.inj same).2

theorem alone_spaced {word a b : List Char} (alone : Alone word (a ++ ' ' :: b)) :
    Alone word a ∨ Alone word b := by
  obtain ⟨piece, member, same⟩ := alone
  rw [List.splitOnP_append_cons _ _ (by decide)] at member
  rcases List.mem_append.mp member with member | member
  · exact .inl ⟨piece, member, same⟩
  · exact .inr ⟨piece, member, same⟩

theorem alone_unbroken {word cs : List Char} (unbroken : Unbroken cs)
    (alone : Alone word cs) : asciiUpper cs = word := by
  obtain ⟨piece, member, same⟩ := alone
  rw [List.splitOnP_eq_singleton unbroken] at member
  cases List.mem_singleton.mp member
  exact same

theorem alone_marked {word a b : List Char} {c : Char} (shown : isBlank c = false)
    (mark : c.toUpper ∉ word) (alone : Alone word (a ++ c :: b)) : Alone word a ∨ Alone word b := by
  obtain ⟨piece, member, rfl⟩ := alone
  obtain ⟨before, last, first, after, left, right, both⟩ := splitOnP_append isBlank a (c :: b)
  obtain ⟨first', after', cut⟩ := List.exists_cons_of_ne_nil (List.splitOnP_ne_nil isBlank b)
  have joined : (c :: b).splitOnP isBlank = (c :: first') :: after' :=
    splitOnP_unbroken_append (unbroken_singleton shown) cut
  rw [joined] at right
  cases right
  rw [both] at member
  rcases List.mem_append.mp member with member | member
  · exact .inl ⟨piece, left ▸ List.mem_append_left _ member, rfl⟩
  · rcases List.mem_cons.mp member with rfl | member
    · exact absurd (List.mem_map_of_mem (by simp)) mark
    · exact .inr ⟨piece, cut ▸ List.mem_cons_of_mem _ member, rfl⟩

theorem alone_listed {word tail : List Char} {texts : List String} (present : texts ≠ [])
    (alone : Alone word ((", ".intercalate texts).toList ++ tail)) :
    ∃ text ∈ texts, Alone word (text.toList ++ [',']) ∨ Alone word (text.toList ++ tail) := by
  induction texts with
  | nil => exact absurd rfl present
  | cons text more ih =>
    cases more with
    | nil =>
      rw [String.intercalate_singleton] at alone
      exact ⟨text, List.mem_cons_self, .inr alone⟩
    | cons next more =>
      have split : (", ".intercalate (text :: next :: more)).toList ++ tail =
          (text.toList ++ [',']) ++
            ' ' :: ((", ".intercalate (next :: more)).toList ++ tail) := by
        rw [String.intercalate_cons_cons]
        simp
      rw [split] at alone
      rcases alone_spaced alone with here | later
      · exact ⟨text, List.mem_cons_self, .inl here⟩
      · obtain ⟨found, member, stands⟩ := ih (List.cons_ne_nil next more) later
        exact ⟨found, List.mem_cons_of_mem text member, stands⟩

theorem first_piece {part : List Char} (trimmed : Trimmed part) :
    ∃ first after, part.splitOnP isBlank = first :: after ∧ first ≠ [] := by
  cases part with
  | nil => exact absurd rfl trimmed.present
  | cons c rest =>
    obtain ⟨first, after, cut⟩ := List.exists_cons_of_ne_nil (List.splitOnP_ne_nil isBlank rest)
    have front : Unbroken [c] := unbroken_singleton (trimmed.head c rfl)
    exact ⟨c :: first, after, splitOnP_unbroken_append front cut, List.cons_ne_nil c first⟩

theorem last_piece {part last : List Char} {before : List (List Char)} (trimmed : Trimmed part)
    (cut : part.splitOnP isBlank = before ++ [last]) : last ≠ [] := by
  rintro rfl
  have ends := List.dropLast_concat_getLast trimmed.present
  have shown := trimmed.last _ (List.getLast?_eq_some_getLast trimmed.present)
  obtain ⟨before', last, first, after, -, right, both⟩ :=
    splitOnP_append isBlank part.dropLast [part.getLast trimmed.present]
  have single : [part.getLast trimmed.present].splitOnP isBlank =
      [[part.getLast trimmed.present]] := List.splitOnP_eq_singleton (unbroken_singleton shown)
  rw [single] at right
  cases right
  rw [ends, cut] at both
  have same := List.append_inj_right' both rfl
  simp at same

theorem alone_between {word front part : List Char} {mark : Char}
    (unbroken : Unbroken front) (shown : isBlank mark = false)
    (before : ∃ c ∈ front, c.toUpper ∉ word) (behind : mark.toUpper ∉ word) (present : word ≠ [])
    (trimmed : Trimmed part) (alone : Alone word (front ++ part ++ [mark])) :
    2 < ((part.splitOnP isBlank).filter (· ≠ [])).length := by
  obtain ⟨piece, member, rfl⟩ := alone
  obtain ⟨first, after, cut, opens⟩ := first_piece trimmed
  obtain ⟨pieces, last, first', after', left, right, both⟩ :=
    splitOnP_append isBlank (front ++ part) [mark]
  have single : [mark].splitOnP isBlank = [[mark]] :=
    List.splitOnP_eq_singleton (unbroken_singleton shown)
  rw [single] at right
  cases right
  rw [both] at member
  rw [splitOnP_unbroken_append unbroken cut] at left
  rcases List.mem_append.mp member with member | member
  · cases pieces with
    | nil => cases member
    | cons head middle =>
      have whole : (front ++ first) :: after = head :: (middle ++ [last]) := left
      obtain ⟨rfl, rfl⟩ := List.cons.inj whole
      rcases List.mem_cons.mp member with rfl | inside
      · obtain ⟨c, there, other⟩ := before
        exact absurd (List.mem_map_of_mem (List.mem_append_left first there)) other
      · have ended : part.splitOnP isBlank = (first :: middle) ++ [last] := cut
        have closes := last_piece trimmed ended
        have nonempty : piece ≠ [] := fun empty => present (by rw [empty]; rfl)
        have kept : piece ∈ middle.filter (· ≠ []) :=
          List.mem_filter.mpr ⟨inside, by simpa using nonempty⟩
        have some := List.length_pos_of_mem kept
        rw [cut]
        simp only [List.filter_cons, List.filter_append, List.filter_nil, opens, closes, ne_eq,
          not_false_eq_true, decide_true, if_true, List.length_cons, List.length_append,
          List.length_nil] at some ⊢
        omega
  · cases List.mem_singleton.mp member
    exact absurd (List.mem_map_of_mem (by simp)) behind

end Text

def Comparison.CallFree (c : Comparison) : Prop := ∀ o ∈ c.operand.singles, ∀ raw, o ≠ .call raw

/-- A filter without function calls. -/
def Filter.CallFree (f : Filter) : Prop := ∀ c ∈ f.comparisons, c.CallFree

namespace DocumentQuery

open Select

/-- What the clauses of a statement start with, as far as it stands between blanks. -/
def clauseWords : List (List Char) := ["FROM".toList, "WHERE".toList, "ORDER".toList]

def marks : List Char := ['.', ',', '@', '(', ')', '=', '<', '>']

theorem clauseWord_plain :
    ∀ word ∈ clauseWords, word ≠ [] ∧ Unbroken word ∧ ∀ c ∈ marks, c.toUpper ∉ word := by
  have plain : (clauseWords.all fun word => decide (word ≠ []) && decide (Unbroken word) &&
      marks.all fun c => decide (c.toUpper ∉ word)) = true := by decide
  simpa [and_assoc] using plain

theorem mark_shown : Unbroken marks := by decide

/-- No clause word stands alone in the text. -/
def Silent (cs : List Char) : Prop := ∀ word ∈ clauseWords, ¬ Alone word cs

/-- Text without blanks, with a mark in it. -/
structure Marked (cs : List Char) : Prop where
  unbroken : Unbroken cs
  mark : ∃ c ∈ cs, c ∈ marks

variable {a b cs : List Char}

theorem silent_unbroken (unbroken : Unbroken cs) (other : asciiUpper cs ∉ clauseWords) :
    Silent cs := by
  intro word is alone
  rw [alone_unbroken unbroken alone] at other
  exact other is

theorem Marked.silent (marked : Marked cs) : Silent cs := by
  obtain ⟨c, inside, mark⟩ := marked.mark
  refine silent_unbroken marked.unbroken fun is => ?_
  exact (clauseWord_plain _ is).2.2 c mark (List.mem_map_of_mem inside)

theorem Marked.append (marked : Marked a) (unbroken : Unbroken b) : Marked (a ++ b) := by
  obtain ⟨c, inside, mark⟩ := marked.mark
  exact ⟨marked.unbroken.append unbroken, c, List.mem_append_left b inside, mark⟩

theorem silent_nil : Silent [] := silent_unbroken nofun (by decide)

theorem Silent.spaced (first : Silent a) (second : Silent b) : Silent (a ++ ' ' :: b) := by
  intro word is alone
  rcases alone_spaced alone with here | there
  · exact first word is here
  · exact second word is there

theorem Silent.marked {c : Char} (mark : c ∈ marks) (first : Silent a) (second : Silent b) :
    Silent (a ++ c :: b) := by
  intro word is alone
  rcases alone_marked (mark_shown c mark) ((clauseWord_plain word is).2.2 c mark) alone with
    here | there
  · exact first word is here
  · exact second word is there

theorem Silent.lacks (silent : Silent cs) {word : List Char} (is : word ∈ clauseWords)
    (rest : List Char) : Lacks (' ' :: (word ++ ' ' :: rest)) (asciiUpper (' ' :: cs)) :=
  lacks_of_not_alone (clauseWord_plain word is).2.1 (silent word is) rest

theorem silent_listed {tail : List Char} {texts : List String} (present : texts ≠ [])
    (each : ∀ t ∈ texts, Silent (t.toList ++ [',']) ∧ Silent (t.toList ++ tail)) :
    Silent ((", ".intercalate texts).toList ++ tail) := by
  intro word is alone
  obtain ⟨text, member, comma | last⟩ := alone_listed present alone
  · exact (each text member).1 word is comma
  · exact (each text member).2 word is last

variable {collection : String}

theorem unbroken_word {word : List Char} (is : IsWord word) : Unbroken word :=
  fun c member => not_blank_of_word (is.letters c member)

theorem unbroken_qualifier (valid : DocumentStore.checkName collection = .ok ()) :
    Unbroken (collection.toList ++ ['.']) :=
  (unbroken_word (isWord_collection valid)).append (unbroken_singleton (by decide))

theorem toList_qualify_append (field : String) :
    (StoreKind.document.qualify collection field).toList =
      (collection.toList ++ ['.']) ++ field.toList := by
  rw [toList_qualify]
  simp

theorem marked_qualify (valid : DocumentStore.checkName collection = .ok ()) {field : String}
    (unbroken : Unbroken field.toList) :
    Marked (StoreKind.document.qualify collection field).toList := by
  rw [toList_qualify_append]
  exact ⟨(unbroken_qualifier valid).append unbroken, '.', by simp, by decide⟩

/-- The fields of a projection with the identifier behind them unless it is among them. -/
def withIdentifier (fields : List String) : List String :=
  if fields.contains documentId then fields else fields ++ [documentId]

theorem mem_withIdentifier {fields : List String} {field : String}
    (member : field ∈ withIdentifier fields) : field ∈ fields ∨ field = documentId := by
  unfold withIdentifier at member
  split at member
  · exact .inl member
  · exact (List.mem_append.mp member).imp_right List.mem_singleton.mp

theorem documentId_mem_withIdentifier (fields : List String) :
    documentId ∈ withIdentifier fields := by
  unfold withIdentifier
  split
  · next has => exact List.contains_iff_mem.mp has
  · exact List.mem_append_right fields List.mem_cons_self

theorem silent_columns (valid : DocumentStore.checkName collection = .ok ())
    {projection : Option (List String)} (unbroken : ∀ fields, projection = some fields →
      ∀ field ∈ fields, Unbroken field.toList) :
    Silent (columns collection projection).toList := by
  cases projection with
  | none =>
    rw [columns]
    exact silent_unbroken (by decide) (by decide)
  | some fields =>
    have shown : ∀ field ∈ withIdentifier fields, Unbroken field.toList := by
      intro field member
      rcases mem_withIdentifier member with member | rfl
      · exact unbroken fields rfl field member
      · decide
    have present : (withIdentifier fields).map (StoreKind.document.qualify collection) ≠ [] :=
      List.ne_nil_of_mem (List.mem_map.mpr ⟨_, documentId_mem_withIdentifier fields, rfl⟩)
    have silent : Silent ((", ".intercalate
        ((withIdentifier fields).map (StoreKind.document.qualify collection))).toList ++ []) := by
      refine silent_listed present fun t member => ?_
      obtain ⟨field, inside, rfl⟩ := List.mem_map.mp member
      have marked := marked_qualify valid (shown field inside)
      exact ⟨(marked.append (by decide)).silent, by rw [List.append_nil]; exact marked.silent⟩
    rw [List.append_nil] at silent
    exact silent

theorem clear_columns {columns : List Char} (silent : Silent columns) : ClearColumns columns := by
  have behind : Silent (columns ++ ' ' :: ['F', 'R', 'O', 'M', ',']) :=
    silent.spaced (silent_unbroken (by decide) (by decide))
  have is : ['F', 'R', 'O', 'M'] ∈ clauseWords := by decide
  have lacks := behind.lacks is []
  unfold ClearColumns
  rw [fromWord_eq]
  refine lacks.inside ⟨[], [','], ?_⟩
  simp only [asciiUpper, List.map_append, List.map_cons, List.nil_append, List.append_assoc,
    List.cons_append]
  rfl

/-- The parts of an ordering are a field and at most a direction. -/
def FewWords (keys : String) : Prop := ∀ part ∈ commaList keys, (words part).length ≤ 2

theorem silent_part (valid : DocumentStore.checkName collection = .ok ()) {part : String}
    (is : IsPart part.toList) (few : (words part).length ≤ 2) :
    Silent ((StoreKind.document.qualify collection part).toList ++ [',']) := by
  intro word among alone
  have plain := clauseWord_plain word among
  rw [toList_qualify_append] at alone
  have dot : ∃ c ∈ collection.toList ++ ['.'], c.toUpper ∉ word :=
    ⟨'.', by simp, plain.2.2 '.' (by decide)⟩
  have many := alone_between (unbroken_qualifier valid) (by decide) dot
    (plain.2.2 ',' (by decide)) plain.1 is.trimmed alone
  rw [words_eq, List.length_map] at few
  omega

theorem silent_keysText (valid : DocumentStore.checkName collection = .ok ())
    {orderBy : Option String} (few : ∀ keys, orderBy = some keys → FewWords keys) {k : List Char}
    (keys : keysText collection orderBy = some k) : Silent (k ++ [',']) := by
  obtain ⟨text, found, rfl⟩ := Option.map_eq_some_iff.mp keys
  obtain ⟨order, rfl, ordering⟩ := Option.bind_eq_some_iff.mp found
  obtain ⟨present, same⟩ := ordering_cases ordering
  rw [same]
  refine silent_listed (by simpa using present) fun t member => ?_
  obtain ⟨part, inside, rfl⟩ := List.mem_map.mp member
  have silent := silent_part valid (isPart_of_mem inside) (few order rfl part inside)
  exact ⟨silent, silent⟩

theorem marked_placeholder {text : String} (is : IsPlaceholder text) : Marked text.toList := by
  obtain ⟨name, rfl, -, letters⟩ := is
  have spelled : ("@" ++ String.ofList name).toList = '@' :: name := by simp
  rw [spelled]
  have unbroken : Unbroken name := fun c member => not_blank_of_word (letters c member).1
  exact ⟨(unbroken_singleton (by decide)).append unbroken, '@', List.mem_cons_self, by decide⟩

theorem marked_documentWord (c : Comparator) : Marked c.documentWord.toList := by
  cases c <;> exact ⟨by decide, _, List.mem_cons_self, by decide⟩

/-- No operand is in native syntax. -/
def Bound : Condition → Prop
  | .compare _ operand => ∃ v, operand = .value v
  | .oneOf operands => operands ≠ [] ∧ ∀ x ∈ operands, ∃ v, x = .value v
  | _ => True

variable {field : String}

theorem marked_operandText {x : Coerced} (bound : ∃ v, x = .value v) (b : Bindings) :
    Marked ((operandText field x).run b).1.toList := by
  obtain ⟨v, rfl⟩ := bound
  exact marked_placeholder (isPlaceholder_next b.given field)

theorem silent_operandText {x : Coerced} (bound : ∃ v, x = .value v) (b : Bindings) :
    Silent ((operandText field x).run b).1.toList :=
  (marked_operandText bound b).silent

theorem silent_oneOf {target : String} (silent : Silent target.toList) {operands : List Coerced}
    (bound : Bound (.oneOf operands)) (b : Bindings) :
    Silent (target ++ " IN (" ++ ", ".intercalate ((operands.mapM (operandText field)).run b).1 ++
      ")").toList := by
  obtain ⟨present, values⟩ := bound
  obtain ⟨length, each⟩ := operandTexts_each field operands b
  let texts := ((operands.mapM (operandText field)).run b).1
  have marked : ∀ t ∈ texts, Marked t.toList := by
    intro t member
    obtain ⟨x, inside, before, rfl⟩ := each t member
    exact marked_operandText (values x inside) before
  have listed : Silent ((", ".intercalate texts).toList ++ [')']) := by
    refine silent_listed (fun empty => ?_) fun t member => ?_
    · rw [show ((operands.mapM (operandText field)).run b).1 = [] from empty] at length
      exact present (List.length_eq_zero_iff.mp length.symm)
    · exact ⟨((marked t member).append (by decide)).silent,
        ((marked t member).append (by decide)).silent⟩
  have among : Silent ['I', 'N'] := silent_unbroken (by decide) (by decide)
  simp only [String.toList_append, List.append_assoc]
  exact silent.spaced (among.spaced (silent_nil.marked (by decide) listed))

theorem silent_range {target lower upper : String} (silent : Silent target.toList)
    (low : Silent lower.toList) (high : Silent upper.toList) :
    Silent ("(" ++ target ++ " >= " ++ lower ++ " AND " ++ target ++ " < " ++ upper ++
      ")").toList := by
  have atLeast : Silent ['>', '='] := silent_unbroken (by decide) (by decide)
  have less : Silent ['<'] := silent_unbroken (by decide) (by decide)
  have both : Silent ['A', 'N', 'D'] := silent_unbroken (by decide) (by decide)
  have above : Silent (target.toList ++ ' ' :: (['>', '='] ++ ' ' :: lower.toList)) :=
    silent.spaced (atLeast.spaced low)
  have below : Silent (target.toList ++ ' ' :: (['<'] ++ ' ' :: (upper.toList ++ [')']))) :=
    silent.spaced (less.spaced (high.marked (by decide) silent_nil))
  have whole := silent_nil.marked (show '(' ∈ marks by decide) (above.spaced (both.spaced below))
  simpa using whole

theorem silent_conditionText (valid : DocumentStore.checkName collection = .ok ())
    (unbroken : Unbroken field.toList) {condition : Condition} (bound : Bound condition)
    (b : Bindings) : Silent ((conditionText collection field condition).run b).1.toList := by
  let target := StoreKind.document.qualify collection field
  have silent : Silent target.toList := (marked_qualify valid unbroken).silent
  have plain (word : List Char) (one : Unbroken word) (other : asciiUpper word ∉ clauseWords) :
      Silent word := silent_unbroken one other
  cases condition with
  | compare c x =>
    change Silent (target ++ " " ++ c.documentWord ++ " " ++ ((operandText field x).run b).1).toList
    simp only [String.toList_append, List.append_assoc]
    exact silent.spaced ((marked_documentWord c).silent.spaced (silent_operandText bound b))
  | oneOf operands => exact silent_oneOf silent bound b
  | exactly text =>
    change Silent (target ++ " = " ++ ((operandText field (.value (.string text))).run b).1).toList
    simp only [String.toList_append, List.append_assoc]
    exact silent.spaced ((plain ['='] (by decide) (by decide)).spaced
      (silent_operandText ⟨_, rfl⟩ b))
  | between lower upper =>
    have low : Silent ((operandText field (.value (.string lower))).run b).1.toList :=
      silent_operandText ⟨_, rfl⟩ b
    cases upper with
    | none =>
      change Silent (target ++ " >= " ++
        ((operandText field (.value (.string lower))).run b).1).toList
      simp only [String.toList_append, List.append_assoc]
      exact silent.spaced ((plain ['>', '='] (by decide) (by decide)).spaced low)
    | some upper => exact silent_range silent low (silent_operandText ⟨.string upper, rfl⟩ _)
  | nullCheck present =>
    have null := plain ['N', 'U', 'L', 'L'] (by decide) (by decide)
    have is := plain ['I', 'S'] (by decide) (by decide)
    cases present with
    | false =>
      change Silent (target ++ " IS NULL").toList
      rw [String.toList_append]
      exact silent.spaced (is.spaced null)
    | true =>
      change Silent (target ++ " IS NOT NULL").toList
      rw [String.toList_append]
      exact silent.spaced (is.spaced ((plain ['N', 'O', 'T'] (by decide) (by decide)).spaced null))

theorem silent_negation {text : String} (silent : Silent text.toList) :
    Silent ("NOT (" ++ text ++ ")").toList := by
  have not : Silent ['N', 'O', 'T'] := silent_unbroken (by decide) (by decide)
  have group : Silent ([] ++ '(' :: (text.toList ++ [')'])) :=
    silent_nil.marked (by decide) (silent.marked (by decide) silent_nil)
  simp only [String.toList_append, List.append_assoc]
  exact not.spaced group

theorem silent_chain {separator : String} {word : List Char}
    (spaced : separator.toList = ' ' :: (word ++ [' '])) (silent : Silent word)
    {texts : List String} (each : ∀ t ∈ texts, Silent t.toList) :
    Silent (separator.intercalate texts).toList := by
  induction texts with
  | nil => exact silent_nil
  | cons text more ih =>
    have first := each text List.mem_cons_self
    cases more with
    | nil => rwa [String.intercalate_singleton]
    | cons next more =>
      have rest := ih fun t member => each t (List.mem_cons_of_mem text member)
      have whole := first.spaced (silent.spaced rest)
      rw [String.intercalate_cons_cons, String.toList_append, String.toList_append, spaced]
      simpa using whole

variable {scope : Scope} {c : Comparison}

theorem value_of_call_free {target : Field} {o : Operand} {x : Coerced}
    (call_free : ∀ raw, o ≠ .call raw) (coerced : o.coerce scope.params target = .ok x) :
    ∃ v, x = .value v := by
  cases x with
  | value v => exact ⟨v, rfl⟩
  | native raw => exact absurd (Operand.coerce_native coerced) (call_free raw)

theorem bound_condition {target : Field} {condition : Condition} (formed : c.Formed)
    (call_free : c.CallFree)
    (planned : scope.condition target c.relation c.operand = .ok condition) : Bound condition := by
  rcases c with ⟨name, relation, operand, negated⟩
  have step : scope.Planned target relation operand condition := Scope.planned_of_condition planned
  cases step with
  | compare coerced =>
    have single := (Operand.coerced_of_single scope.params target (formed.single rfl rfl)).2
    have among : operand ∈ operand.singles := by
      change operand.singles = [operand] at single
      rw [single]
      exact List.mem_cons_self
    exact value_of_call_free (call_free operand among) coerced
  | oneOf coerced =>
    obtain ⟨some, all⟩ := formed.items rfl
    refine ⟨ne_nil_of_length some (outcomes_of_singles all coerced).2.1, fun x member => ?_⟩
    obtain ⟨o, inside, same⟩ := (mapM_ok coerced).2 x member
    exact value_of_call_free (call_free o inside) same
  | like coerced pattern =>
    rcases patternCondition_cases pattern with ⟨text, rfl⟩ | ⟨lower, upper, rfl⟩ <;>
      exact trivial
  | isNull _ => exact trivial
  | isNotNull _ => exact trivial

theorem silent_planTest (valid : DocumentStore.checkName collection = .ok ()) {p : Plan}
    (formed : c.Formed) (call_free : c.CallFree) (planned : scope.planTest c = .ok p)
    (b : Bindings) : Silent ((planText collection p).run b).1.toList := by
  obtain ⟨target, condition, resolved, conditioned, rfl⟩ := Scope.planTest_cases planned
  have is : IsWord target.name.toList := Scope.resolve_isWord resolved formed.field
  have silent := silent_conditionText valid (unbroken_word is)
    (bound_condition formed call_free conditioned) b
  rw [planText]
  cases c.negated with
  | false => exact silent
  | true => exact silent_negation silent

theorem closed_silent : Closed (fun t => Silent t.toList) (fun t => Silent t.toList) where
  toChain silent := silent
  negation := silent_negation
  group silent := by
    simp only [String.toList_append, List.append_assoc]
    exact silent_nil.marked (by decide) (silent.marked (by decide) silent_nil)
  all _ each := by
    have and : Silent ['A', 'N', 'D'] := silent_unbroken (by decide) (by decide)
    exact silent_chain (by decide) and each
  any _ each := by
    have or : Silent ['O', 'R'] := silent_unbroken (by decide) (by decide)
    exact silent_chain (by decide) or each

theorem silent_compiled {compiler : Compiler}
    (valid : DocumentStore.checkName compiler.collection = .ok ()) {text : String} {f : Filter}
    {native : CompiledFilter} (parsed : Filter.parse compiler.params text = .ok (some f))
    (call_free : f.CallFree) (compiled : compiler.compile f = .ok native) :
    Silent native.text.toList := by
  obtain ⟨p, planned, rfl⟩ := Compiler.plan_of_compile compiled
  exact (closed_silent.planText
    (fun c both p b planned => silent_planTest valid both.1 both.2 planned b)
    ((formed_of_parse parsed).and call_free) p .none planned).2

theorem clear_silent {predicate keys : Option (List Char)}
    (silent : ∀ p, predicate = some p → Silent p)
    (silent_keys : ∀ k, keys = some k → Silent (k ++ [','])) : Clear predicate keys := by
  have order : ['O', 'R', 'D', 'E', 'R'] ∈ clauseWords := by decide
  have condition : ['W', 'H', 'E', 'R', 'E'] ∈ clauseWords := by decide
  have inside (k : List Char) : asciiUpper (' ' :: k) <:+: asciiUpper (' ' :: (k ++ [','])) :=
    ⟨[], [','], by simp [asciiUpper]⟩
  refine ⟨fun k same => ?_, fun _ k same => ?_, fun _ p same => ?_⟩
  · rw [orderWord_eq]
    exact ((silent_keys k same).lacks order ['B', 'Y', ' ']).inside (inside k)
  · rw [whereWord_eq]
    exact ((silent_keys k same).lacks condition []).inside (inside k)
  · rw [orderWord_eq]
    exact (silent p same).lacks order ['B', 'Y', ' ']

theorem unambiguous_statement (valid : DocumentStore.checkName collection = .ok ())
    {filter : Option CompiledFilter} {projection : Option (List String)} {orderBy : Option String}
    (silent : ∀ p, predicateText filter = some p → Silent p)
    (unbroken : ∀ fields, projection = some fields → ∀ field ∈ fields, Unbroken field.toList)
    (few : ∀ keys, orderBy = some keys → FewWords keys) :
    Unambiguous collection filter projection orderBy where
  columns := clear_columns (silent_columns valid unbroken)
  clauses := clear_silent silent fun _ keys => silent_keysText valid few keys

end DocumentQuery

end StoreGateway

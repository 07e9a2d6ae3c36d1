import StoreGateway.Document.Select
import StoreGateway.Proofs.Phrase

/-! Where clause words are found in a statement that was put together from its clauses. -/

namespace StoreGateway

namespace Text

def Lacks (pattern cs : List Char) : Prop := indexOf? pattern cs = none

instance (pattern cs : List Char) : Decidable (Lacks pattern cs) :=
  inferInstanceAs (Decidable (indexOf? pattern cs = none))

theorem lacks_iff {pattern cs : List Char} : Lacks pattern cs ↔ ¬ pattern <:+: cs := by
  induction cs with
  | nil => by_cases empty : pattern = [] <;> simp [Lacks, indexOf?, empty]
  | cons c cs ih =>
    unfold Lacks at ih ⊢
    rw [indexOf?, List.infix_cons_iff, not_or, ← ih]
    by_cases here : pattern <+: c :: cs
    · simp [List.isPrefixOf_iff_prefix.mpr here, here]
    · have not_here : pattern.isPrefixOf (c :: cs) = false :=
        Bool.eq_false_iff.mpr fun is => here (List.isPrefixOf_iff_prefix.mp is)
      simp [not_here, here]

theorem lacks_cons {pattern cs : List Char} {c : Char} :
    Lacks pattern (c :: cs) ↔ ¬ pattern <+: c :: cs ∧ Lacks pattern cs := by
  rw [lacks_iff, lacks_iff, List.infix_cons_iff, not_or]

theorem Lacks.inside {pattern part cs : List Char} (lacks : Lacks pattern cs) (is : part <:+: cs) :
    Lacks pattern part :=
  lacks_iff.mpr fun found => lacks_iff.mp lacks (found.trans is)

theorem lastIndexOf?_of_lacks {pattern cs : List Char} (lacks : Lacks pattern cs) :
    lastIndexOf? pattern cs = none := by
  induction cs with
  | nil =>
    have present : pattern ≠ [] := fun empty => by simp [Lacks, indexOf?, empty] at lacks
    rw [lastIndexOf?, if_neg present]
  | cons c cs ih =>
    have rest : Lacks pattern cs := lacks.inside (List.suffix_cons c cs).isInfix
    have not_here : pattern.isPrefixOf (c :: cs) = false := by
      refine Bool.eq_false_iff.mpr fun is => ?_
      exact lacks_iff.mp lacks (List.isPrefixOf_iff_prefix.mp is).isInfix
    rw [lastIndexOf?, ih rest]
    simp [not_here]

theorem Lacks.after {c : Char} {pattern front cs : List Char} (lacks : Lacks (c :: pattern) cs)
    (other : c ∉ front) : Lacks (c :: pattern) (front ++ cs) := by
  induction front with
  | nil => exact lacks
  | cons d front ih =>
    have rest := ih fun member => other (List.mem_cons_of_mem d member)
    rw [lacks_iff] at rest ⊢
    rw [List.cons_append, List.infix_cons_iff, not_or]
    refine ⟨fun starts => ?_, rest⟩
    exact other ((List.cons_prefix_cons.mp starts).1 ▸ List.mem_cons_self)

theorem indexOf?_append {pattern front : List Char} (present : pattern ≠ [])
    (lacks : Lacks pattern (front ++ pattern.dropLast)) (rest : List Char) :
    indexOf? pattern (front ++ pattern ++ rest) = some front.length := by
  induction front with
  | nil =>
    rw [List.nil_append]
    cases pattern with
    | nil => exact absurd rfl present
    | cons c more =>
      have starts : (c :: more).isPrefixOf (c :: (more ++ rest)) = true :=
        List.isPrefixOf_iff_prefix.mpr (List.prefix_append (c :: more) rest)
      rw [List.cons_append, indexOf?, if_pos starts]
      rfl
  | cons c front ih =>
    have later := ih (lacks.inside (List.suffix_cons c _).isInfix)
    have not_here : ¬ pattern.isPrefixOf (c :: (front ++ pattern ++ rest)) = true := by
      intro is
      have whole := List.isPrefixOf_iff_prefix.mp is
      have part : c :: (front ++ pattern.dropLast) <+: c :: (front ++ pattern ++ rest) := by
        refine List.cons_prefix_cons.mpr ⟨rfl, ?_⟩
        rw [List.append_assoc]
        exact (List.prefix_append_right_inj front).mpr
          ((List.dropLast_prefix pattern).trans (List.prefix_append pattern rest))
      have length : pattern.length ≤ (c :: (front ++ pattern.dropLast)).length := by
        simp only [List.length_cons, List.length_append, List.length_dropLast]
        omega
      exact lacks_iff.mp lacks (List.prefix_of_prefix_length_le whole part length).isInfix
    rw [List.cons_append, List.cons_append, indexOf?, if_neg not_here, later]
    rfl

theorem lastIndexOf?_append {pattern cs : List Char} {i : Nat} (front : List Char)
    (found : lastIndexOf? pattern cs = some i) :
    lastIndexOf? pattern (front ++ cs) = some (front.length + i) := by
  induction front with
  | nil => simpa using found
  | cons c front ih =>
    rw [List.cons_append, lastIndexOf?, ih, List.length_cons]
    exact congrArg some (by omega)

theorem lastIndexOf?_start {c : Char} {pattern rest : List Char} (front : List Char)
    (lacks : Lacks (c :: pattern) (pattern ++ rest)) :
    lastIndexOf? (c :: pattern) (front ++ (c :: pattern) ++ rest) = some front.length := by
  have here : lastIndexOf? (c :: pattern) (c :: pattern ++ rest) = some 0 := by
    have starts : (c :: pattern).isPrefixOf (c :: (pattern ++ rest)) = true :=
      List.isPrefixOf_iff_prefix.mpr (List.prefix_append (c :: pattern) rest)
    rw [List.cons_append, lastIndexOf?, lastIndexOf?_of_lacks lacks]
    exact if_pos starts
  rw [List.append_assoc]
  exact lastIndexOf?_append front here

theorem asciiUpper_append (a b : List Char) : asciiUpper (a ++ b) = asciiUpper a ++ asciiUpper b :=
  List.map_append

theorem length_asciiUpper (cs : List Char) : (asciiUpper cs).length = cs.length :=
  List.length_map _

theorem toUpper_cases (c : Char) :
    c.toUpper = c ∨ isBlank c = false ∧ isBlank c.toUpper = false := by
  by_cases lower : c.isLower = true
  · have letters : ∀ n ∈ List.range 26, isBlank (Char.ofNat (97 + n)) = false ∧
        isBlank (Char.ofNat (97 + n)).toUpper = false := by decide +kernel
    have both := Bool.and_eq_true_iff.mp lower
    have bounds : 97 ≤ c.toNat ∧ c.toNat ≤ 122 :=
      ⟨of_decide_eq_true both.1, of_decide_eq_true both.2⟩
    have here := letters (c.toNat - 97) (List.mem_range.mpr (by omega))
    rw [Nat.add_sub_cancel' bounds.1, Char.ofNat_toNat] at here
    exact .inr here
  · exact .inl (dif_neg fun bounds => lower
      (Bool.and_eq_true_iff.mpr ⟨decide_eq_true bounds.1, decide_eq_true bounds.2⟩))

theorem isBlank_toUpper (c : Char) : isBlank c.toUpper = isBlank c := by
  rcases toUpper_cases c with same | ⟨before, after⟩
  · rw [same]
  · rw [before, after]

theorem toUpper_ne_space {c : Char} (other : c ≠ ' ') : c.toUpper ≠ ' ' := by
  rcases toUpper_cases c with same | ⟨-, shown⟩
  · rw [same]
    exact other
  · intro space
    rw [space] at shown
    exact absurd shown (by decide)

end Text

namespace Select

open Text

theorem fromWord_eq : fromWord = [' ', 'F', 'R', 'O', 'M', ' '] := by decide

theorem whereWord_eq : whereWord = [' ', 'W', 'H', 'E', 'R', 'E', ' '] := by decide

theorem orderWord_eq : orderWord = [' ', 'O', 'R', 'D', 'E', 'R', ' ', 'B', 'Y', ' '] := by decide

/-- The text starts with a character that trimming keeps. -/
def Opens (cs : List Char) : Prop := ∃ c rest, cs = c :: rest ∧ isBlank c = false

theorem trimEnd_prefix (cs : List Char) : trimEnd cs <+: cs := by
  have suffix := List.dropWhile_suffix isBlank (l := cs.reverse)
  have reversed := List.reverse_prefix.mpr suffix
  rwa [List.reverse_reverse] at reversed

theorem dropWhile_last {c : Char} (shown : isBlank c = false) (cs : List Char) :
    (cs ++ [c]).dropWhile isBlank = cs.dropWhile isBlank ++ [c] := by
  rw [List.dropWhile_append]
  split
  · next empty => rw [List.isEmpty_iff.mp empty, List.dropWhile_cons, shown]; rfl
  · rfl

theorem trimEnd_cons {c : Char} (shown : isBlank c = false) (rest : List Char) :
    trimEnd (c :: rest) = c :: trimEnd rest := by
  rw [trimEnd, List.reverse_cons, dropWhile_last shown, List.reverse_append]
  rfl

theorem trimEnd_append {cs : List Char} (opens : Opens cs) (front : List Char) :
    trimEnd (front ++ cs) = front ++ trimEnd cs := by
  obtain ⟨c, rest, rfl, shown⟩ := opens
  rw [trimEnd, List.reverse_append, List.reverse_cons, List.dropWhile_append, dropWhile_last shown,
    if_neg (by simp), trimEnd_cons shown]
  simp [trimEnd]

theorem trimEnd_trimEnd (cs : List Char) : trimEnd (trimEnd cs) = trimEnd cs := by
  have again (ds : List Char) :
      (ds.dropWhile isBlank).dropWhile isBlank = ds.dropWhile isBlank := by
    have first := List.head?_dropWhile_not isBlank ds
    cases left : ds.dropWhile isBlank with
    | nil => rfl
    | cons d more =>
      rw [left] at first
      rw [List.dropWhile_cons, first]
      rfl
  rw [trimEnd, trimEnd, List.reverse_reverse, again]

theorem Opens.trimEnd {cs : List Char} (opens : Opens cs) : Opens (trimEnd cs) := by
  obtain ⟨c, rest, rfl, shown⟩ := opens
  exact ⟨c, Text.trimEnd rest, trimEnd_cons shown rest, shown⟩

theorem trimChars_of_opens {cs : List Char} (opens : Opens cs) :
    trimChars cs = Text.trimEnd cs := by
  obtain ⟨c, rest, rfl, shown⟩ := opens
  rw [trimChars, List.dropWhile_cons, shown]
  rfl

theorem trimmed_trimEnd {cs : List Char} (opens : Opens cs) :
    trimmed (Text.trimEnd cs) = trimmed cs := by
  rw [trimmed, trimmed, trimChars_of_opens opens.trimEnd, trimChars_of_opens opens,
    trimEnd_trimEnd]

theorem lacks_trimEnd {pattern cs : List Char} (lacks : Lacks pattern (asciiUpper (' ' :: cs))) :
    Lacks pattern (asciiUpper (' ' :: Text.trimEnd cs)) := by
  have part : ' ' :: Text.trimEnd cs <+: ' ' :: cs :=
    List.cons_prefix_cons.mpr ⟨rfl, trimEnd_prefix cs⟩
  exact lacks.inside (part.map Char.toUpper).isInfix

/-- A clause with its word before it, or nothing. -/
def clause (word : List Char) : Option (List Char) → List Char
  | none => []
  | some cs => word ++ cs

def source (collection : List Char) (predicate keys : Option (List Char)) : List Char :=
  collection ++ clause whereWord predicate ++ clause orderWord keys

/-- Ordering keys and predicate have no clause word where it would be taken for one. -/
structure Clear (predicate keys : Option (List Char)) : Prop where
  keys_order : ∀ k, keys = some k → Lacks orderWord (asciiUpper (' ' :: k))
  keys_where : predicate = none → ∀ k, keys = some k → Lacks whereWord (asciiUpper (' ' :: k))
  predicate_order : keys = none → ∀ p, predicate = some p →
    Lacks orderWord (asciiUpper (' ' :: p))

theorem clear_iff {predicate keys : Option (List Char)} :
    ((keys.all fun k => decide (Lacks orderWord (asciiUpper (' ' :: k)))) = true ∧
      (predicate = none →
        (keys.all fun k => decide (Lacks whereWord (asciiUpper (' ' :: k)))) = true) ∧
      (keys = none →
        (predicate.all fun p => decide (Lacks orderWord (asciiUpper (' ' :: p)))) = true)) ↔
      Clear predicate keys := by
  simp only [Option.all_eq_true, decide_eq_true_eq]
  exact ⟨fun ⟨order, condition, last⟩ => ⟨order, condition, last⟩,
    fun clear => ⟨clear.keys_order, clear.keys_where, clear.predicate_order⟩⟩

instance (predicate keys : Option (List Char)) : Decidable (Clear predicate keys) :=
  decidable_of_iff _ clear_iff

/-- The name of a collection: no blank is in it. -/
structure IsName (collection : List Char) : Prop where
  trimmed : Filter.Trimmed collection
  no_space : ∀ c ∈ collection, c ≠ ' '

variable {collection : List Char} {predicate keys : Option (List Char)}

theorem IsName.opens (is : IsName collection) : Opens collection := by
  cases collection with
  | nil => exact absurd rfl is.trimmed.present
  | cons c rest => exact ⟨c, rest, rfl, is.trimmed.head c rfl⟩

theorem IsName.trimEnd (is : IsName collection) : Text.trimEnd collection = collection := by
  rw [← trimChars_of_opens is.opens, Filter.trimChars_of_trimmed is.trimmed]

theorem IsName.upper (is : IsName collection) : ' ' ∉ asciiUpper collection := by
  intro member
  obtain ⟨d, inside, same⟩ := List.mem_map.mp member
  exact toUpper_ne_space (is.no_space d inside) same

theorem order_in_predicate {p : List Char} (lacks : Lacks orderWord (asciiUpper (' ' :: p))) :
    Lacks orderWord (asciiUpper (whereWord ++ p)) := by
  have split : asciiUpper (whereWord ++ p) =
      ' ' :: (['W', 'H', 'E', 'R', 'E'] ++ asciiUpper (' ' :: p)) := by
    rw [whereWord_eq]
    rfl
  rw [split]
  rw [orderWord_eq] at lacks ⊢
  refine lacks_cons.mpr ⟨fun starts => ?_, lacks.after (by decide)⟩
  simp at starts

theorem order_after_order {k : List Char} (lacks : Lacks orderWord (asciiUpper (' ' :: k))) :
    Lacks orderWord (['O', 'R', 'D', 'E', 'R', ' ', 'B', 'Y', ' '] ++ asciiUpper k) := by
  have split : ['O', 'R', 'D', 'E', 'R', ' ', 'B', 'Y', ' '] ++ asciiUpper k =
      ['O', 'R', 'D', 'E', 'R'] ++ (' ' :: (['B', 'Y'] ++ asciiUpper (' ' :: k))) := rfl
  rw [split]
  rw [orderWord_eq] at lacks ⊢
  refine Lacks.after (lacks_cons.mpr ⟨fun starts => ?_, lacks.after (by decide)⟩) (by decide)
  simp at starts

theorem where_in_keys {k : List Char} (lacks : Lacks whereWord (asciiUpper (' ' :: k))) :
    Lacks whereWord (asciiUpper (orderWord ++ k)) := by
  have split : asciiUpper (orderWord ++ k) =
      ' ' :: (['O', 'R', 'D', 'E', 'R'] ++ (' ' :: (['B', 'Y'] ++ asciiUpper (' ' :: k)))) := by
    rw [orderWord_eq]
    rfl
  rw [split]
  rw [whereWord_eq] at lacks ⊢
  refine lacks_cons.mpr ⟨fun starts => ?_,
    Lacks.after (lacks_cons.mpr ⟨fun starts => ?_, lacks.after (by decide)⟩) (by decide)⟩
  · simp at starts
  · simp at starts

theorem lastIndexOf?_source (is : IsName collection) (clear : Clear predicate keys) :
    lastIndexOf? orderWord (asciiUpper (source collection predicate keys)) =
      keys.map fun _ => (collection ++ clause whereWord predicate).length := by
  cases keys with
  | none =>
    refine lastIndexOf?_of_lacks ?_
    have part : Lacks orderWord (asciiUpper (clause whereWord predicate)) := by
      cases predicate with
      | none =>
        rw [orderWord_eq]
        exact rfl
      | some p => exact order_in_predicate (clear.predicate_order rfl p rfl)
    rw [source, clause, List.append_nil, asciiUpper_append]
    rw [orderWord_eq] at part ⊢
    exact part.after is.upper
  | some k =>
    have lacks := order_after_order (clear.keys_order k rfl)
    have upper : asciiUpper orderWord = orderWord := by decide
    rw [source, clause, asciiUpper_append _ (orderWord ++ k), asciiUpper_append orderWord, upper,
      ← List.append_assoc, Option.map_some,
      ← length_asciiUpper (collection ++ clause whereWord predicate)]
    rw [orderWord_eq] at lacks ⊢
    exact lastIndexOf?_start _ lacks

theorem indexOf?_source (is : IsName collection) (clear : Clear predicate keys) :
    indexOf? whereWord (asciiUpper (source collection predicate keys)) =
      predicate.map fun _ => collection.length := by
  cases predicate with
  | none =>
    have part : Lacks whereWord (asciiUpper (clause orderWord keys)) := by
      cases keys with
      | none =>
        rw [whereWord_eq]
        exact rfl
      | some k => exact where_in_keys (clear.keys_where rfl k rfl)
    rw [source, clause, List.append_nil, asciiUpper_append]
    rw [whereWord_eq] at part ⊢
    exact part.after is.upper
  | some p =>
    have upper : asciiUpper whereWord = whereWord := by decide
    have lacks : Lacks whereWord (asciiUpper collection ++ whereWord.dropLast) := by
      rw [whereWord_eq]
      refine Lacks.after ?_ is.upper
      decide
    have found := indexOf?_append (by rw [whereWord_eq]; nofun) lacks
      (asciiUpper (p ++ clause orderWord keys))
    rw [source, clause, List.append_assoc, List.append_assoc, asciiUpper_append,
      asciiUpper_append, upper, ← List.append_assoc, found, length_asciiUpper]
    rfl

def kept (text : Option (List Char)) : Option String := (text.map trimmed).filter (· ≠ "")

theorem trimmed_name (is : IsName collection) : trimmed collection = String.ofList collection := by
  rw [trimmed, Filter.trimChars_of_trimmed is.trimmed]

theorem take_source (collection : List Char) (predicate keys : Option (List Char)) :
    (source collection predicate keys).take (((predicate.map fun _ => collection.length).or
      (keys.map fun _ => (collection ++ clause whereWord predicate).length)).getD
        (source collection predicate keys).length) = collection := by
  cases predicate with
  | some p => simp [source]
  | none => cases keys <;> simp [source, clause]

theorem drop_source (collection : List Char) (predicate : Option (List Char)) (k : List Char) :
    (source collection predicate (some k)).drop
      ((collection ++ clause whereWord predicate).length + orderWord.length) = k := by
  rw [source, clause, ← List.append_assoc, ← List.length_append, List.drop_left]

theorem between_source (collection p : List Char) (keys : Option (List Char)) :
    between? (collection.length + whereWord.length)
      (((keys.map fun _ => (collection ++ clause whereWord (some p)).length).filter
        (collection.length < ·)).getD (source collection (some p) keys).length)
      (source collection (some p) keys) = .ok p := by
  have stop : ((keys.map fun _ => (collection ++ clause whereWord (some p)).length).filter
      (collection.length < ·)).getD (source collection (some p) keys).length =
      collection.length + whereWord.length + p.length := by
    cases keys with
    | none => simp [source, clause, Nat.add_assoc]
    | some k =>
      have later : collection.length < (collection ++ clause whereWord (some p)).length := by
        simp [clause, whereWord_eq]
      rw [Option.map_some, Option.filter_some, if_pos (decide_eq_true later), Option.getD_some]
      simp [clause, Nat.add_assoc]
  rw [stop, between?, if_pos (Nat.le_add_right _ _), Nat.add_sub_cancel_left, source, clause,
    ← List.append_assoc, ← List.length_append, List.append_assoc, List.drop_left, List.take_left]

theorem ofSource_source (is : IsName collection) (clear : Clear predicate keys) (columns : String) :
    ofSource columns (source collection predicate keys) =
      .ok ⟨projectionOf (String.ofList collection) columns, String.ofList collection,
        kept predicate, kept keys⟩ := by
  have present : String.ofList collection ≠ "" := by
    intro empty
    exact is.trimmed.present (by simpa using congrArg String.toList empty)
  have ordering : (keys.map fun _ => (collection ++ clause whereWord predicate).length).map
      (fun start => trimmed ((source collection predicate keys).drop (start + orderWord.length))) =
      keys.map trimmed := by
    cases keys with
    | none => rfl
    | some k => rw [Option.map_some, Option.map_some, drop_source, Option.map_some]
  unfold ofSource
  simp only [lastIndexOf?_source is clear, indexOf?_source is clear, take_source,
    trimmed_name is, if_neg present, ordering]
  cases predicate with
  | none => rfl
  | some p =>
    simp only [Option.map_some, between_source]
    rfl

def written (columns collection : List Char) (predicate keys : Option (List Char)) : List Char :=
  selectWord ++ columns ++ fromWord ++ source collection predicate keys

theorem opens_written (columns collection : List Char) (predicate keys : Option (List Char)) :
    Opens (written columns collection predicate keys) :=
  ⟨'S', _, rfl, by decide⟩

theorem trimChars_written (columns : List Char) (is : IsName collection)
    (clear : Clear predicate keys) (predicate_opens : ∀ p, predicate = some p → Opens p)
    (keys_open : ∀ k, keys = some k → Opens k) :
    ∃ predicate' keys', Clear predicate' keys' ∧
      kept predicate' = kept predicate ∧ kept keys' = kept keys ∧
      trimChars (written columns collection predicate keys) =
        written columns collection predicate' keys' := by
  rw [trimChars_of_opens (opens_written _ _ _ _)]
  cases keys with
  | some k =>
    refine ⟨predicate, some (Text.trimEnd k), ⟨?_, ?_, nofun⟩, rfl, ?_, ?_⟩
    · rintro _ ⟨⟩
      exact lacks_trimEnd (clear.keys_order k rfl)
    · rintro absent _ ⟨⟩
      exact lacks_trimEnd (clear.keys_where absent k rfl)
    · rw [kept, kept, Option.map_some, Option.map_some, trimmed_trimEnd (keys_open k rfl)]
    · simp only [written, source, clause, ← List.append_assoc]
      exact trimEnd_append (keys_open k rfl) _
  | none =>
    cases predicate with
    | some p =>
      refine ⟨some (Text.trimEnd p), none, ⟨nofun, nofun, ?_⟩, ?_, rfl, ?_⟩
      · rintro _ _ ⟨⟩
        exact lacks_trimEnd (clear.predicate_order rfl p rfl)
      · rw [kept, kept, Option.map_some, Option.map_some, trimmed_trimEnd (predicate_opens p rfl)]
      · simp only [written, source, clause, ← List.append_assoc, List.append_nil]
        exact trimEnd_append (predicate_opens p rfl) _
    | none =>
      refine ⟨none, none, ⟨nofun, nofun, nofun⟩, rfl, rfl, ?_⟩
      simp only [written, source, clause, List.append_nil]
      rw [trimEnd_append is.opens, is.trimEnd]

/-- The columns have no clause word before the one behind them. -/
def ClearColumns (columns : List Char) : Prop :=
  Lacks fromWord (asciiUpper (' ' :: columns) ++ fromWord.dropLast)

instance (columns : List Char) : Decidable (ClearColumns columns) :=
  inferInstanceAs (Decidable (Lacks _ _))

theorem indexOf?_written {columns : List Char} (clear : ClearColumns columns)
    (collection : List Char) (predicate keys : Option (List Char)) :
    indexOf? fromWord (asciiUpper (written columns collection predicate keys)) =
      some (selectWord ++ columns).length := by
  have upper : asciiUpper fromWord = fromWord := by decide
  have split : asciiUpper (selectWord ++ columns) ++ fromWord.dropLast =
      ['S', 'E', 'L', 'E', 'C', 'T'] ++ (asciiUpper (' ' :: columns) ++ fromWord.dropLast) := rfl
  have lacks : Lacks fromWord (asciiUpper (selectWord ++ columns) ++ fromWord.dropLast) := by
    rw [split]
    unfold ClearColumns at clear
    rw [fromWord_eq] at clear ⊢
    exact clear.after (by decide)
  have present : fromWord ≠ [] := by rw [fromWord_eq]; nofun
  rw [written, asciiUpper_append, asciiUpper_append _ fromWord, upper,
    indexOf?_append present lacks, length_asciiUpper]

/-- The columns and the clauses of a statement are read back. -/
theorem ofText_written {text : String} {columns : List Char} (is : IsName collection)
    (clear_columns : ClearColumns columns) (clear : Clear predicate keys)
    (predicate_opens : ∀ p, predicate = some p → Opens p)
    (keys_open : ∀ k, keys = some k → Opens k)
    (same : text.toList = written columns collection predicate keys) :
    ofText text = .ok ⟨projectionOf (String.ofList collection) (trimmed columns),
      String.ofList collection, kept predicate, kept keys⟩ := by
  obtain ⟨predicate', keys', clear', predicates, ordering, trims⟩ :=
    trimChars_written columns is clear predicate_opens keys_open
  have starts : selectWord.isPrefixOf (asciiUpper (written columns collection predicate' keys')) =
      true := rfl
  have cut : between? selectWord.length (selectWord ++ columns).length
      (written columns collection predicate' keys') = .ok columns := by
    rw [between?, List.length_append, if_pos (Nat.le_add_right _ _), Nat.add_sub_cancel_left,
      written, List.append_assoc, List.append_assoc, List.drop_left, List.take_left]
  have rest : (written columns collection predicate' keys').drop
      ((selectWord ++ columns).length + fromWord.length) =
      source collection predicate' keys' := by
    rw [written, ← List.length_append, List.drop_left]
  have read := ofSource_source is clear' (trimmed columns)
  rw [predicates, ordering] at read
  unfold ofText
  simp only [same, trims, starts, indexOf?_written clear_columns, cut, rest, Bool.not_true,
    Bool.false_eq_true, if_false, bind, Except.bind]
  exact read

end Select

end StoreGateway

import StoreGateway.Compile.Plan
import StoreGateway.Filter.Evaluation
import StoreGateway.Proofs.Phrase

/-! The truth of a filter from the truth of its comparisons. -/

namespace StoreGateway

namespace Filter

mutual

/-- What a filter evaluates to when its comparisons evaluate as given, from left to right and no
further than the outcome needs. -/
def holdsBy (leaf : Comparison → Except EvalFault Bool) : Filter → Except EvalFault Bool
  | .test c => leaf c
  | .combine .and children => allHoldBy leaf children
  | .combine .or children => anyHoldsBy leaf children
  | .combine .not [] => .error .emptyNegation
  | .combine .not (child :: _) => do return !(← holdsBy leaf child)

def allHoldBy (leaf : Comparison → Except EvalFault Bool) : List Filter → Except EvalFault Bool
  | [] => .ok true
  | f :: rest => do if ← holdsBy leaf f then allHoldBy leaf rest else return false

def anyHoldsBy (leaf : Comparison → Except EvalFault Bool) : List Filter → Except EvalFault Bool
  | [] => .ok false
  | f :: rest => do if ← holdsBy leaf f then return true else anyHoldsBy leaf rest

end

mutual

theorem holds_eq_holdsBy (params : Params) (qualifier : Option String) (r : Record) :
    ∀ f : Filter, f.holds params qualifier r = f.holdsBy fun c => c.holds params qualifier r
  | .test c => rfl
  | .combine .and children => by
    rw [holds, holdsBy, allHold_eq_allHoldBy params qualifier r children]
  | .combine .or children => by
    rw [holds, holdsBy, anyHolds_eq_anyHoldsBy params qualifier r children]
  | .combine .not [] => rfl
  | .combine .not (child :: _) => by
    rw [holds, holdsBy, holds_eq_holdsBy params qualifier r child]

theorem allHold_eq_allHoldBy (params : Params) (qualifier : Option String) (r : Record) :
    ∀ fs : List Filter,
      allHold params qualifier r fs = allHoldBy (fun c => c.holds params qualifier r) fs
  | [] => rfl
  | f :: rest => by
    rw [allHold, allHoldBy, holds_eq_holdsBy params qualifier r f,
      allHold_eq_allHoldBy params qualifier r rest]

theorem anyHolds_eq_anyHoldsBy (params : Params) (qualifier : Option String) (r : Record) :
    ∀ fs : List Filter,
      anyHolds params qualifier r fs = anyHoldsBy (fun c => c.holds params qualifier r) fs
  | [] => rfl
  | f :: rest => by
    rw [anyHolds, anyHoldsBy, holds_eq_holdsBy params qualifier r f,
      anyHolds_eq_anyHoldsBy params qualifier r rest]

end

def bothHold (first second : Except EvalFault Bool) : Except EvalFault Bool := do
  if ← first then second else return false

def eitherHolds (first second : Except EvalFault Bool) : Except EvalFault Bool := do
  if ← first then return true else second

theorem bothHold_assoc (a b c : Except EvalFault Bool) :
    bothHold (bothHold a b) c = bothHold a (bothHold b c) := by
  cases a with
  | error fault => rfl
  | ok t => cases t <;> rfl

theorem eitherHolds_assoc (a b c : Except EvalFault Bool) :
    eitherHolds (eitherHolds a b) c = eitherHolds a (eitherHolds b c) := by
  cases a with
  | error fault => rfl
  | ok t => cases t <;> rfl

theorem bothHold_true (a : Except EvalFault Bool) : bothHold a (.ok true) = a := by
  cases a with
  | error fault => rfl
  | ok t => cases t <;> rfl

theorem eitherHolds_false (a : Except EvalFault Bool) : eitherHolds a (.ok false) = a := by
  cases a with
  | error fault => rfl
  | ok t => cases t <;> rfl

variable (leaf : Comparison → Except EvalFault Bool)

theorem allHoldBy_append (fs gs : List Filter) :
    allHoldBy leaf (fs ++ gs) = bothHold (allHoldBy leaf fs) (allHoldBy leaf gs) := by
  induction fs with
  | nil => rfl
  | cons f fs ih =>
    change bothHold (holdsBy leaf f) (allHoldBy leaf (fs ++ gs)) =
      bothHold (bothHold (holdsBy leaf f) (allHoldBy leaf fs)) (allHoldBy leaf gs)
    rw [ih, bothHold_assoc]

theorem anyHoldsBy_append (fs gs : List Filter) :
    anyHoldsBy leaf (fs ++ gs) = eitherHolds (anyHoldsBy leaf fs) (anyHoldsBy leaf gs) := by
  induction fs with
  | nil => rfl
  | cons f fs ih =>
    change eitherHolds (holdsBy leaf f) (anyHoldsBy leaf (fs ++ gs)) =
      eitherHolds (eitherHolds (holdsBy leaf f) (anyHoldsBy leaf fs)) (anyHoldsBy leaf gs)
    rw [ih, eitherHolds_assoc]

theorem allHoldBy_operandsOf (f : Filter) :
    allHoldBy leaf (f.operandsOf .and) = holdsBy leaf f := by
  cases f with
  | test c => exact bothHold_true _
  | combine op children =>
    cases op
    · rfl
    · exact bothHold_true _
    · exact bothHold_true _

theorem anyHoldsBy_operandsOf (f : Filter) :
    anyHoldsBy leaf (f.operandsOf .or) = holdsBy leaf f := by
  cases f with
  | test c => exact eitherHolds_false _
  | combine op children =>
    cases op
    · exact eitherHolds_false _
    · rfl
    · exact eitherHolds_false _

theorem holdsBy_join_and (left right : Filter) :
    holdsBy leaf (join .and left right) = bothHold (holdsBy leaf left) (holdsBy leaf right) := by
  rw [join, holdsBy, allHoldBy_append, allHoldBy_operandsOf, allHoldBy_operandsOf]

theorem holdsBy_join_or (left right : Filter) :
    holdsBy leaf (join .or left right) = eitherHolds (holdsBy leaf left) (holdsBy leaf right) := by
  rw [join, holdsBy, anyHoldsBy_append, anyHoldsBy_operandsOf, anyHoldsBy_operandsOf]

theorem holdsBy_negate (f : Filter) :
    holdsBy leaf (negate f) = (holdsBy leaf f).map (! ·) := by
  rw [negate, holdsBy]
  cases holdsBy leaf f <;> rfl

theorem holdsBy_chain_and (first : Filter) (more : List (List Char × Filter)) :
    holdsBy leaf (chainFilter .and first more) =
      allHoldBy leaf (first :: more.map Prod.snd) := by
  induction more generalizing first with
  | nil => exact (bothHold_true _).symm
  | cons next more ih =>
    rw [chainFilter, List.foldl_cons, ← chainFilter, ih]
    change bothHold (holdsBy leaf (join .and first next.2)) _ =
      bothHold (holdsBy leaf first) (bothHold (holdsBy leaf next.2) _)
    rw [holdsBy_join_and, bothHold_assoc]

theorem holdsBy_chain_or (first : Filter) (more : List (List Char × Filter)) :
    holdsBy leaf (chainFilter .or first more) =
      anyHoldsBy leaf (first :: more.map Prod.snd) := by
  induction more generalizing first with
  | nil => exact (eitherHolds_false _).symm
  | cons next more ih =>
    rw [chainFilter, List.foldl_cons, ← chainFilter, ih]
    change eitherHolds (holdsBy leaf (join .or first next.2)) _ =
      eitherHolds (holdsBy leaf first) (eitherHolds (holdsBy leaf next.2) _)
    rw [holdsBy_join_or, eitherHolds_assoc]

/-- A text reads as a filter that evaluates as given on every record. -/
def Means (params : Params) (qualifier : Option String) (rank : Rank) (text : String)
    (meaning : Record → Except EvalFault Bool) : Prop :=
  ∃ f, Reads params rank text.toList f ∧
    ∀ r, f.holdsBy (fun c => c.holds params qualifier r) = meaning r

variable {params : Params} {qualifier : Option String} {text : String}
  {meaning : Record → Except EvalFault Bool}

theorem toList_group (text : String) :
    ("(" ++ text ++ ")").toList = '(' :: (text.toList ++ [')']) := by
  simp

theorem toList_negated (word text : String) :
    (word ++ " (" ++ text ++ ")").toList = word.toList ++ ' ' :: '(' :: (text.toList ++ [')']) := by
  simp

theorem Means.parse (means : Means params qualifier .or text meaning) :
    ∃ f, parse params text = .ok (some f) ∧ ∀ r, f.holds params qualifier r = meaning r := by
  obtain ⟨f, reads, holds⟩ := means
  refine ⟨f, ?_, fun r => by rw [holds_eq_holdsBy, holds r]⟩
  rw [← reads.parse, String.ofList_toList]

theorem Means.toAnd (means : Means params qualifier .not text meaning) :
    Means params qualifier .and text meaning := by
  obtain ⟨f, reads, holds⟩ := means
  exact ⟨f, reads.toAnd, holds⟩

theorem Means.toOr (means : Means params qualifier .and text meaning) :
    Means params qualifier .or text meaning := by
  obtain ⟨f, reads, holds⟩ := means
  exact ⟨f, reads.toOr, holds⟩

theorem Means.group (means : Means params qualifier .or text meaning) :
    Means params qualifier .not ("(" ++ text ++ ")") meaning := by
  obtain ⟨f, reads, holds⟩ := means
  refine ⟨f, ?_, holds⟩
  rw [toList_group]
  exact reads.group

theorem Means.spacedGroup (means : Means params qualifier .or text meaning) :
    Means params qualifier .not ("( " ++ text ++ " )") meaning := by
  obtain ⟨f, reads, holds⟩ := means
  refine ⟨f, ?_, holds⟩
  have same : ("( " ++ text ++ " )").toList =
      '(' :: ((' ' :: (text.toList ++ [' '])) ++ [')']) := by simp
  rw [same]
  exact reads.spacedGroup

theorem Means.negated (word : String) (means : Means params qualifier .or text meaning)
    (is : IsWord word.toList) (keyword : Text.asciiLower word = "not") :
    Means params qualifier .not (word ++ " (" ++ text ++ ")") fun r => (meaning r).map (! ·) := by
  obtain ⟨f, reads, holds⟩ := means
  refine ⟨negate f, ?_, fun r => by rw [holdsBy_negate, holds r]⟩
  rw [toList_negated]
  exact reads.group.negated is (by rwa [String.ofList_toList])

/-- What a text means, and that it stands bare among others unless it is a chain. -/
def Stands (params : Params) (qualifier : Option String) (chain : Bool) (text : String)
    (meaning : Record → Except EvalFault Bool) : Prop :=
  Means params qualifier .or text meaning ∧
    (chain = false → Means params qualifier .not text meaning)

theorem Stands.child {chain : Bool} (stands : Stands params qualifier chain text meaning) :
    Means params qualifier .not (if chain then "(" ++ text ++ ")" else text) meaning := by
  cases chain with
  | false => exact stands.2 rfl
  | true => exact stands.1.group

theorem Means.stands {chain : Bool} (means : Means params qualifier .not text meaning) :
    Stands params qualifier chain text meaning :=
  ⟨means.toAnd.toOr, fun _ => means⟩

def allOf (outcomes : List (Except EvalFault Bool)) : Except EvalFault Bool :=
  outcomes.foldr bothHold (.ok true)

def anyOf (outcomes : List (Except EvalFault Bool)) : Except EvalFault Bool :=
  outcomes.foldr eitherHolds (.ok false)

theorem allHoldBy_eq_allOf (fs : List Filter) :
    allHoldBy leaf fs = allOf (fs.map (holdsBy leaf)) := by
  induction fs with
  | nil => rfl
  | cons f fs ih => rw [List.map_cons, allOf, List.foldr_cons, ← allOf, ← ih]; rfl

theorem anyHoldsBy_eq_anyOf (fs : List Filter) :
    anyHoldsBy leaf fs = anyOf (fs.map (holdsBy leaf)) := by
  induction fs with
  | nil => rfl
  | cons f fs ih => rw [List.map_cons, anyOf, List.foldr_cons, ← anyOf, ← ih]; rfl

theorem allOf_ok (outcomes : List Bool) : allOf (outcomes.map .ok) = .ok (outcomes.all id) := by
  induction outcomes with
  | nil => rfl
  | cons b outcomes ih =>
    rw [List.map_cons, allOf, List.foldr_cons, ← allOf, ih]
    cases b <;> rfl

theorem anyOf_ok (outcomes : List Bool) : anyOf (outcomes.map .ok) = .ok (outcomes.any id) := by
  induction outcomes with
  | nil => rfl
  | cons b outcomes ih =>
    rw [List.map_cons, anyOf, List.foldr_cons, ← anyOf, ih]
    cases b <;> rfl

abbrev Phrase := String × (Record → Except EvalFault Bool)

theorem exists_pairs {α β : Type} {known : α → β → Prop} {xs : List α}
    (each : ∀ x ∈ xs, ∃ y, known x y) :
    ∃ pairs : List (α × β), xs = pairs.map Prod.fst ∧ ∀ p ∈ pairs, known p.1 p.2 := by
  induction xs with
  | nil => exact ⟨[], rfl, nofun⟩
  | cons x xs ih =>
    obtain ⟨y, here⟩ := each x List.mem_cons_self
    obtain ⟨pairs, same, others⟩ := ih fun other member => each other (List.mem_cons_of_mem x member)
    refine ⟨(x, y) :: pairs, by rw [List.map_cons, same], fun p member => ?_⟩
    rcases List.mem_cons.mp member with rfl | member
    · exact here
    · exact others p member

theorem ne_nil_of_length {α β : Type} {as : List α} {bs : List β} (present : bs ≠ [])
    (length : as.length = bs.length) : as ≠ [] := by
  intro empty
  rw [empty] at length
  exact present (List.eq_nil_of_length_eq_zero length.symm)

theorem exists_chain {word : List Char} {op : Connective} {item whole : Rank} {rest : Filter → Rank}
    (links : Links word op item whole rest) {separator : String}
    (spaced : separator.toList = ' ' :: (word ++ [' '])) {items : List Phrase} (present : items ≠ [])
    (all : ∀ i ∈ items, Means params qualifier item i.1 i.2) :
    ∃ first more, Reads params whole (separator.intercalate (items.map Prod.fst)).toList
        (chainFilter op first more) ∧
      ∀ r, (first :: more.map Prod.snd).map (holdsBy fun c => c.holds params qualifier r) =
        items.map fun i => i.2 r := by
  obtain ⟨pairs, rfl, each⟩ := exists_pairs all
  cases pairs with
  | nil => exact absurd rfl present
  | cons p others =>
    have reads := links.reads_joined spaced fun q inside => (each q inside).1
    refine ⟨p.2, others.map fun q => (q.1.1.toList, q.2), ?_, fun r => ?_⟩
    · rw [List.map_map]
      exact reads
    · have parts : p.2 :: (others.map fun q => (q.1.1.toList, q.2)).map Prod.snd =
          (p :: others).map Prod.snd := by
        rw [List.map_map]
        rfl
      rw [parts, List.map_map, List.map_map]
      exact List.map_congr_left fun q inside => (each q inside).2 r

theorem means_chain_and (word separator : String) (is : IsWord word.toList)
    (keyword : Text.asciiLower word = "and") (spaced : separator = " " ++ word ++ " ")
    (items : List Phrase) (present : items ≠ [])
    (all : ∀ item ∈ items, Means params qualifier .not item.1 item.2) :
    Means params qualifier .and (separator.intercalate (items.map Prod.fst))
      fun r => allOf (items.map fun item => item.2 r) := by
  have links := links_and is (by rwa [String.ofList_toList])
  have apart : separator.toList = ' ' :: (word.toList ++ [' ']) := by
    rw [spaced]
    simp
  obtain ⟨first, more, reads, meanings⟩ := exists_chain links apart present all
  refine ⟨_, reads, fun r => ?_⟩
  rw [holdsBy_chain_and, allHoldBy_eq_allOf, meanings r]

theorem means_chain_or (word separator : String) (is : IsWord word.toList)
    (keyword : Text.asciiLower word = "or") (spaced : separator = " " ++ word ++ " ")
    (items : List Phrase) (present : items ≠ [])
    (all : ∀ item ∈ items, Means params qualifier .and item.1 item.2) :
    Means params qualifier .or (separator.intercalate (items.map Prod.fst))
      fun r => anyOf (items.map fun item => item.2 r) := by
  have links := links_or is (by rwa [String.ofList_toList])
  have apart : separator.toList = ' ' :: (word.toList ++ [' ']) := by
    rw [spaced]
    simp
  obtain ⟨first, more, reads, meanings⟩ := exists_chain links apart present all
  refine ⟨_, reads, fun r => ?_⟩
  rw [holdsBy_chain_or, anyHoldsBy_eq_anyOf, meanings r]

end Filter

end StoreGateway

import StoreGateway.Compile.Document
import StoreGateway.Document.Store
import StoreGateway.Proofs.Coerced
import StoreGateway.Proofs.Equality
import StoreGateway.Proofs.Placeholders
import StoreGateway.Proofs.Records

/-! The document store's filter texts read back, with the values bound in them, as filters with the
meaning of those compiled. -/

namespace StoreGateway.DocumentQuery

open StoreGateway.Filter

/-- The placeholder of a bound value is a word behind a sigil, and finds the value among parameters
whether it is looked for with its sigil or without. -/
def Named (params : Params) (p : BoundParam) : Prop :=
  ∃ name : List Char, p.placeholder = "@" ++ String.ofList name ∧
    (∀ c ∈ name, isWordChar c = true) ∧ params.lookup? (String.ofList name) = some p.value

def IsPlaceholder (text : String) : Prop :=
  ∃ name : List Char, text = "@" ++ String.ofList name ∧ name ≠ [] ∧
    ∀ c ∈ name, isWordChar c = true ∧ Params.isSigil c = false

theorem kept_of_stem {c : Char} (kept : (Text.isAlphanumeric c || c == '_') = true) :
    isWordChar c = true ∧ Params.isSigil c = false := by
  rcases Bool.or_eq_true_iff.mp kept with letter | same
  · refine ⟨by simp [isWordChar, letter], ?_⟩
    cases sigil : Params.isSigil c with
    | false => rfl
    | true =>
      simp only [Params.isSigil, Bool.or_eq_true, beq_iff_eq] at sigil
      rcases sigil with rfl | rfl <;> exact absurd letter (by decide)
  · rw [eq_of_beq same]
    decide

theorem isPlaceholder_next (given : Placeholders) (field : String) :
    IsPlaceholder (given.next field).1 := by
  refine ⟨(Placeholders.stem field).toList ++
    Nat.toDigits 10 (given.count (Placeholders.stem field) + 1), ?_, ?_, ?_⟩
  · apply String.toList_inj.mp
    simp [Placeholders.next]
  · simp [Nat.toDigits_ne_nil]
  · intro c member
    rcases List.mem_append.mp member with member | member
    · rw [Placeholders.stem, String.toList_ofList] at member
      obtain ⟨d, -, rfl⟩ := List.mem_map.mp member
      split
      · next kept => exact kept_of_stem kept
      · decide
    · exact isWordChar_of_isDigit (List.all_eq_true.mp (Literal.toDigits_all_digit _) c member)

theorem named_of_distinct {bound : List BoundParam}
    (distinct : (bound.map BoundParam.placeholder).Nodup)
    (shape : ∀ p ∈ bound, IsPlaceholder p.placeholder) {text : String} {limit : Option Nat} :
    ∀ p ∈ bound, Named (NativeQuery.paramsByName ⟨text, bound, limit⟩) p := by
  intro p inside
  obtain ⟨name, same, present, letters⟩ := shape p inside
  refine ⟨name, same, fun c member => (letters c member).1, ?_⟩
  have keys : (bound.map fun q => (q.placeholder, q.value)).map Prod.fst =
      bound.map BoundParam.placeholder := by
    simp
  have found := Record.get?_ofMembers_of_mem (keys ▸ distinct) (List.mem_map_of_mem inside)
  have sigil : ∀ m ∈ bound.map (fun q => (q.placeholder, q.value)),
      m.1.toList.head? = some '@' := by
    intro m member
    obtain ⟨q, inside', rfl⟩ := List.mem_map.mp member
    obtain ⟨name', same', -, -⟩ := shape q inside'
    simp [same']
  have absent (other : String) (first : other.toList.head? ≠ some '@') :
      (Record.ofMembers (bound.map fun q => (q.placeholder, q.value))).get? other = none := by
    refine Record.get?_ofMembers_of_not_mem fun m member equal => first ?_
    rw [← equal]
    exact sigil m member
  have bare : Params.bareName (String.ofList name) = String.ofList name := by
    cases name with
    | nil => rfl
    | cons c more =>
      rw [Params.bareName, String.toList_ofList, List.dropWhile_cons,
        (letters c List.mem_cons_self).2]
      rfl
  have plain : (String.ofList name).toList.head? ≠ some '@' := by
    intro first
    rw [String.toList_ofList] at first
    exact absurd (letters '@' (List.mem_of_mem_head? first)).2 (by decide)
  have colon : (":" ++ String.ofList name).toList.head? ≠ some '@' := by simp
  unfold Params.lookup?
  simp only [NativeQuery.paramsByName, bare]
  rw [absent _ plain, absent _ colon, ← same]
  exact found

/-- A computation that only adds to the values bound, each with a placeholder. -/
def Grows {α : Type} (m : StateM Bindings α) : Prop :=
  ∀ b, ∃ more, (m.run b).2.bound = b.bound ++ more ∧ ∀ p ∈ more, IsPlaceholder p.placeholder

theorem grows_pure {α : Type} (a : α) : Grows (pure a : StateM Bindings α) :=
  fun b => ⟨[], (List.append_nil b.bound).symm, nofun⟩

theorem Grows.bind {α β : Type} {m : StateM Bindings α} {next : α → StateM Bindings β}
    (first : Grows m) (second : ∀ a, Grows (next a)) : Grows (m >>= next) := by
  intro b
  obtain ⟨more, grown, shaped⟩ := first b
  obtain ⟨others, grown', shaped'⟩ := second (m.run b).1 (m.run b).2
  refine ⟨more ++ others, ?_, fun p member => ?_⟩
  · rw [← List.append_assoc, ← grown]
    exact grown'
  · rcases List.mem_append.mp member with member | member
    · exact shaped p member
    · exact shaped' p member

theorem grows_bind (field : String) (v : Value) : Grows (bind field v) := by
  intro b
  refine ⟨[⟨(b.given.next field).1, v⟩], rfl, fun p member => ?_⟩
  rw [List.mem_singleton.mp member]
  exact isPlaceholder_next b.given field

theorem grows_mapM {α β : Type} (write : α → StateM Bindings β) (each : ∀ a, Grows (write a))
    (as : List α) : Grows (as.mapM write) := by
  induction as with
  | nil => exact grows_pure []
  | cons a as ih =>
    rw [List.mapM_cons]
    exact (each a).bind fun t => ih.bind fun ts => grows_pure _

theorem grows_operandText (field : String) (x : Coerced) : Grows (operandText field x) := by
  cases x with
  | value v => exact grows_bind field v
  | native raw => exact grows_pure raw

theorem grows_conditionText (collection field : String) (condition : Condition) :
    Grows (conditionText collection field condition) := by
  cases condition with
  | compare c operand => exact (grows_operandText field operand).bind fun t => grows_pure _
  | oneOf operands =>
    exact (grows_mapM _ (grows_operandText field) operands).bind fun ts => grows_pure _
  | exactly text => exact (grows_bind field _).bind fun t => grows_pure _
  | between lower upper =>
    cases upper with
    | none => exact (grows_bind field _).bind fun t => grows_pure _
    | some upper =>
      exact (grows_bind field _).bind fun low => (grows_bind field _).bind fun high => grows_pure _
  | nullCheck present => exact grows_pure _

mutual

theorem grows_planText (collection : String) : ∀ p : Plan, Grows (planText collection p)
  | .test field condition negated => by
    rw [planText]
    exact (grows_conditionText collection field condition).bind fun t => grows_pure _
  | .negate p => by
    rw [planText]
    exact (grows_planText collection p).bind fun t => grows_pure _
  | .all children => by
    rw [planText]
    exact (grows_childTexts collection children).bind fun ts => grows_pure _
  | .any children => by
    rw [planText]
    exact (grows_childTexts collection children).bind fun ts => grows_pure _

theorem grows_childTexts (collection : String) : ∀ ps : List Plan, Grows (childTexts collection ps)
  | [] => by
    rw [childTexts]
    exact grows_pure []
  | p :: rest => by
    rw [childTexts]
    exact (grows_planText collection p).bind fun t =>
      (grows_childTexts collection rest).bind fun ts => grows_pure _

end

/-- Every value bound is named among the parameters. -/
def AllNamed (params : Params) (b : Bindings) : Prop := ∀ p ∈ b.bound, Named params p

theorem AllNamed.before {α : Type} {params : Params} {m : StateM Bindings α} {b : Bindings}
    (named : AllNamed params (m.run b).2) (grows : Grows m) : AllNamed params b := by
  obtain ⟨more, grown, -⟩ := grows b
  intro p inside
  exact named p (by rw [grown]; exact List.mem_append_left _ inside)

variable {params : Params} {collection field : String}

def outcome : Coerced → Except EvalFault Value
  | .value v => .ok v
  | .native raw => .error (.unknownCall raw)

theorem reads_bind {b : Bindings} {v : Value} (named : AllNamed params ((bind field v).run b).2) :
    ∃ o, ReadsAs params ((bind field v).run b).1.toList o ∧ o.evaluate params = .ok v := by
  have inside : (⟨(b.given.next field).1, v⟩ : BoundParam) ∈ ((bind field v).run b).2.bound :=
    List.mem_append_right _ List.mem_cons_self
  obtain ⟨name, same, letters, found⟩ := named _ inside
  refine ⟨.param (String.ofList name), ?_, ?_⟩
  · have spelled : ((bind field v).run b).1.toList = '@' :: name := by
      have written : ((bind field v).run b).1 = "@" ++ String.ofList name := same
      rw [written]
      simp
    rw [spelled]
    exact readsAs_sigil letters
  · simp only [Operand.evaluate, found]

def IsOperand (x : Coerced) : Prop := ∀ raw, x = .native raw → IsCall raw.toList

theorem reads_operandText {b : Bindings} {x : Coerced} (is : IsOperand x)
    (named : AllNamed params ((operandText field x).run b).2) :
    ∃ o, ReadsAs params ((operandText field x).run b).1.toList o ∧
      o.evaluate params = outcome x := by
  cases x with
  | value v => exact reads_bind named
  | native raw =>
    refine ⟨.call raw, ?_, rfl⟩
    have reads : ReadsAs params raw.toList (.call (String.ofList raw.toList)) := (is raw rfl).readsAs
    rwa [String.ofList_toList] at reads

theorem run_operands (x : Coerced) (operands : List Coerced) (b : Bindings) :
    ((x :: operands).mapM (operandText field)).run b =
      (((operandText field x).run b).1 ::
        ((operands.mapM (operandText field)).run ((operandText field x).run b).2).1,
        ((operands.mapM (operandText field)).run ((operandText field x).run b).2).2) := by
  rw [List.mapM_cons]
  rfl

/-- The texts of some operands are those of each of them, with what is bound by then. -/
theorem operandTexts_each (field : String) (operands : List Coerced) (b : Bindings) :
    ((operands.mapM (operandText field)).run b).1.length = operands.length ∧
      ∀ t ∈ ((operands.mapM (operandText field)).run b).1,
        ∃ x ∈ operands, ∃ before, t = ((operandText field x).run before).1 := by
  induction operands generalizing b with
  | nil => exact ⟨rfl, nofun⟩
  | cons x operands ih =>
    obtain ⟨length, others⟩ := ih ((operandText field x).run b).2
    rw [run_operands]
    refine ⟨congrArg Nat.succ length, fun t member => ?_⟩
    rcases List.mem_cons.mp member with rfl | member
    · exact ⟨x, List.mem_cons_self, b, rfl⟩
    · obtain ⟨y, inside, written⟩ := others t member
      exact ⟨y, List.mem_cons_of_mem x inside, written⟩

theorem reads_operands {operands : List Coerced} (all : ∀ x ∈ operands, IsOperand x) {b : Bindings}
    (named : AllNamed params ((operands.mapM (operandText field)).run b).2) :
    ∃ items : List (List Char × Operand),
      ((operands.mapM (operandText field)).run b).1 = items.map (fun i => String.ofList i.1) ∧
      items.length = operands.length ∧ (∀ i ∈ items, ReadsAs params i.1 i.2) ∧
      Operand.evaluateAll params (items.map Prod.snd) = operands.mapM outcome := by
  induction operands generalizing b with
  | nil => exact ⟨[], rfl, rfl, nofun, rfl⟩
  | cons x operands ih =>
    let b' := ((operandText field x).run b).2
    rw [run_operands] at named ⊢
    obtain ⟨items, texts, length, reads, evaluates⟩ :=
      ih (fun y member => all y (List.mem_cons_of_mem x member)) named
    have named' : AllNamed params b' :=
      AllNamed.before named (grows_mapM _ (grows_operandText field) operands)
    obtain ⟨o, first, value⟩ := reads_operandText (all x List.mem_cons_self) named'
    refine ⟨(((operandText field x).run b).1.toList, o) :: items, ?_, congrArg Nat.succ length, ?_,
      ?_⟩
    · rw [List.map_cons, texts, String.ofList_toList]
    · intro i member
      rcases List.mem_cons.mp member with rfl | member
      · exact first
      · exact reads i member
    · rw [List.map_cons, Operand.evaluateAll, value, evaluates, List.mapM_cons]

theorem isWord_collection (valid : DocumentStore.checkName collection = .ok ()) :
    IsWord collection.toList := by
  unfold DocumentStore.checkName at valid
  split at valid
  · cases valid
  · next present =>
    split at valid
    · cases valid
    · split at valid
      · cases valid
      · next letters =>
        refine ⟨fun empty => present (String.toList_eq_nil_iff.mp empty), fun c member => ?_⟩
        have all : collection.toList.all DocumentStore.isNameChar = true := by simpa using letters
        have kept := List.all_eq_true.mp all c member
        rcases Bool.or_eq_true_iff.mp kept with kept | same
        · exact (kept_of_stem kept).1
        · rw [eq_of_beq same]
          decide

theorem toList_qualify (collection field : String) :
    (StoreKind.document.qualify collection field).toList =
      collection.toList ++ '.' :: field.toList := by
  simp [StoreKind.qualify]

theorem isField_qualify (valid : DocumentStore.checkName collection = .ok ())
    (is : IsWord field.toList) :
    IsField (StoreKind.document.qualify collection field).toList := by
  have first := isWord_collection valid
  refine ⟨⟨by simp [toList_qualify], fun c member => ?_⟩, fun same => ?_⟩
  · rw [toList_qualify] at member
    rcases List.mem_append.mp member with member | member
    · exact first.letters c member
    · rcases List.mem_cons.mp member with rfl | member
      · decide
      · exact is.letters c member
  · have dot : '.' ∈ (Text.asciiLower (StoreKind.document.qualify collection field)).toList := by
      rw [Text.asciiLower, String.toList_ofList, toList_qualify]
      exact List.mem_map.mpr ⟨'.', by simp, rfl⟩
    rw [String.ofList_toList] at same
    rw [same] at dot
    exact absurd dot (by decide)

theorem after_append (front rest : List Char) : Text.after? front (front ++ rest) = some rest := by
  induction front with
  | nil => cases rest <;> rfl
  | cons c front ih => rw [List.cons_append, Text.after?, if_pos rfl, ih]

theorem unqualify_qualify (collection field : String) :
    unqualify (some collection) (StoreKind.document.qualify collection field) = field := by
  have same : collection.toList ++ '.' :: field.toList =
      (collection.toList ++ ['.']) ++ field.toList := by simp
  unfold unqualify
  simp only [toList_qualify]
  rw [same, after_append]
  exact String.ofList_toList

theorem means_nothing (valid : DocumentStore.checkName collection = .ok ())
    (is : IsWord field.toList) {words : String} {r : Relation} (relates : Relates words.toList r)
    (takes : r.takesNothing = true) :
    Means params (some collection) .not
      (StoreKind.document.qualify collection field ++ " " ++ words) fun record =>
        .ok (r.holds (record.present? field) .null) := by
  have reads : Reads params .not _ _ := reads_nothing (isField_qualify valid is) relates takes
  rw [String.ofList_toList] at reads
  have same : (StoreKind.document.qualify collection field ++ " " ++ words).toList =
      (StoreKind.document.qualify collection field).toList ++ ' ' :: words.toList := by simp
  rw [← same] at reads
  refine ⟨_, reads, fun record => ?_⟩
  change Except.ok (r.holds (record.present? (unqualify (some collection) _)) .null != false) = _
  rw [unqualify_qualify, Bool.bne_false]

theorem means_single (valid : DocumentStore.checkName collection = .ok ())
    (is : IsWord field.toList) {words text : String} {r : Relation} {o : Operand}
    (relates : Relates words.toList r) (readsAs : ReadsAs params text.toList o)
    (takes : r.takesNothing = false) (alone : r.takesList = false) :
    Means params (some collection) .not
      (StoreKind.document.qualify collection field ++ " " ++ words ++ " " ++ text) fun record =>
        (o.evaluate params).map (r.holds (record.present? field)) := by
  have reads := reads_single (isField_qualify valid is) relates readsAs takes alone
  rw [String.ofList_toList] at reads
  have same : (StoreKind.document.qualify collection field ++ " " ++ words ++ " " ++ text).toList =
      (StoreKind.document.qualify collection field).toList ++
        ' ' :: (words.toList ++ ' ' :: text.toList) := by simp
  rw [← same] at reads
  refine ⟨_, reads, fun record => ?_⟩
  simp only [holdsBy, Comparison.holds, unqualify_qualify, Bool.bne_false]
  cases o.evaluate params <;> rfl

theorem toList_items (first : List Char × Operand) (more : List (List Char × Operand)) :
    (", ".intercalate ((first :: more).map fun i => String.ofList i.1)).toList ++ [')'] =
      first.1 ++ itemsEnd more := by
  induction more generalizing first with
  | nil => simp [itemsEnd]
  | cons next more ih =>
    have rest := ih next
    rw [List.map_cons] at rest ⊢
    rw [List.map_cons, String.intercalate_cons_cons, String.toList_append, String.toList_append,
      List.append_assoc, List.append_assoc, rest]
    simp [itemsEnd]

theorem means_list (valid : DocumentStore.checkName collection = .ok ())
    (is : IsWord field.toList) {items : List (List Char × Operand)} (present : items ≠ [])
    (all : ∀ i ∈ items, ReadsAs params i.1 i.2) :
    Means params (some collection) .not
      (StoreKind.document.qualify collection field ++ " IN (" ++
        ", ".intercalate (items.map fun i => String.ofList i.1) ++ ")") fun record =>
        (Operand.evaluateAll params (items.map Prod.snd)).map fun values =>
          Relation.oneOf.holds (record.present? field) (.array values) := by
  cases items with
  | nil => exact absurd rfl present
  | cons first more =>
    have reads := reads_list (isField_qualify valid is) relates_in rfl all
    rw [String.ofList_toList] at reads
    have same : (StoreKind.document.qualify collection field ++ " IN (" ++
        ", ".intercalate ((first :: more).map fun i => String.ofList i.1) ++ ")").toList =
        (StoreKind.document.qualify collection field).toList ++
          ' ' :: ("IN".toList ++ ' ' :: '(' :: (first.1 ++ itemsEnd more)) := by
      rw [← toList_items]
      simp
    rw [← same] at reads
    refine ⟨_, reads, fun record => ?_⟩
    simp only [holdsBy, Comparison.holds, unqualify_qualify, Bool.bne_false, Operand.evaluate,
      List.map_cons]
    cases Operand.evaluateAll params (first.2 :: more.map Prod.snd) <;> rfl

theorem means_bound (valid : DocumentStore.checkName collection = .ok ())
    (is : IsWord field.toList) (c : Comparator) {b : Bindings} {v : Value}
    (named : AllNamed params ((bind field v).run b).2) :
    Means params (some collection) .not
      (StoreKind.document.qualify collection field ++ " " ++ c.documentWord ++ " " ++
        ((bind field v).run b).1) fun record => .ok (c.holds (record.present? field) v) := by
  obtain ⟨o, readsAs, value⟩ := reads_bind named
  have means := means_single valid is (relates_documentWord c) readsAs rfl rfl
  simp only [value] at means
  exact means

theorem spaced (front back : String) (c : Comparator) (word : String)
    (same : word = " " ++ c.documentWord ++ " ") :
    front ++ word ++ back = front ++ " " ++ c.documentWord ++ " " ++ back := by
  rw [same, ← String.append_assoc, ← String.append_assoc]

theorem means_exactly (valid : DocumentStore.checkName collection = .ok ())
    (is : IsWord field.toList) (text : String) {b : Bindings}
    (named : AllNamed params ((conditionText collection field (.exactly text)).run b).2) :
    Means params (some collection) .not
      ((conditionText collection field (.exactly text)).run b).1
      fun record => .ok (Comparator.eq.holds (record.present? field) (.string text)) := by
  have means := means_bound valid is .eq (v := .string text) named
  rw [← spaced _ _ .eq " = " rfl] at means
  exact means

/-- A range is written as a chain of its bounds. -/
theorem conditionText_between (collection field lower upper : String) (b : Bindings) :
    ((conditionText collection field (.between lower (some upper))).run b).1 =
      "(" ++ " AND ".intercalate
        [StoreKind.document.qualify collection field ++ " " ++ Comparator.ge.documentWord ++
          " " ++ ((bind field (.string lower)).run b).1,
        StoreKind.document.qualify collection field ++ " " ++ Comparator.lt.documentWord ++
          " " ++ ((bind field (.string upper)).run ((bind field (.string lower)).run b).2).1] ++
        ")" := by
  change "(" ++ StoreKind.document.qualify collection field ++ " >= " ++
    ((bind field (.string lower)).run b).1 ++ " AND " ++
    StoreKind.document.qualify collection field ++ " < " ++
    ((bind field (.string upper)).run ((bind field (.string lower)).run b).2).1 ++ ")" = _
  apply String.toList_inj.mp
  simp [Comparator.documentWord]

theorem means_between (valid : DocumentStore.checkName collection = .ok ())
    (is : IsWord field.toList) (lower : String) (upper : Option String) {b : Bindings}
    (named : AllNamed params ((conditionText collection field (.between lower upper)).run b).2) :
    Means params (some collection) .not
      ((conditionText collection field (.between lower upper)).run b).1 fun record =>
        .ok (Comparator.ge.holds (record.present? field) (.string lower) &&
          upper.all fun bound => Comparator.lt.holds (record.present? field) (.string bound)) := by
  cases upper with
  | none =>
    have means := means_bound valid is .ge (v := .string lower) named
    rw [← spaced _ _ .ge " >= " rfl] at means
    simp only [Option.all_none, Bool.and_true]
    exact means
  | some upper =>
    let after := ((bind field (.string lower)).run b).2
    have high : Means params (some collection) .not _ _ :=
      means_bound (b := after) valid is .lt (v := .string upper) named
    have low : Means params (some collection) .not _ _ :=
      means_bound (b := b) valid is .ge (v := .string lower)
        (AllNamed.before (m := bind field (.string upper)) named (grows_bind field _))
    have chain := means_chain_and "AND" " AND " (by decide) rfl rfl [(_, _), (_, _)]
      (by simp) (by
        intro item member
        rcases List.mem_cons.mp member with rfl | member
        · exact low
        · rw [List.mem_singleton.mp member]; exact high)
    have meaning (first second : Bool) :
        allOf [.ok first, .ok second] = .ok (first && second) := by
      cases first <;> cases second <;> rfl
    rw [conditionText_between]
    simp only [List.map_cons, List.map_nil, meaning] at chain
    exact chain.toOr.group

variable {scope : Scope} {c : Comparison}

theorem outcome_of_single {target : Field} {o : Operand} {x : Coerced} (single : o.IsSingle)
    (coerced : o.coerce scope.params target = .ok x) :
    IsOperand x ∧ outcome x = o.coercedValue scope.params target := by
  rcases Operand.coerce_single single coerced with ⟨v, rfl, value⟩ | ⟨raw, rfl, rfl, call, value⟩
  · exact ⟨nofun, value.symm⟩
  · refine ⟨fun other same => ?_, value.symm⟩
    cases same
    exact call

theorem outcomes_of_singles {target : Field} {items : List Operand} {operands : List Coerced}
    (single : ∀ o ∈ items, o.IsSingle)
    (coerced : items.mapM (Operand.coerce scope.params target) = .ok operands) :
    (∀ x ∈ operands, IsOperand x) ∧ operands.length = items.length ∧
      operands.mapM outcome = Operand.coercedValues scope.params target items := by
  induction items generalizing operands with
  | nil =>
    cases coerced
    exact ⟨nofun, rfl, rfl⟩
  | cons o items ih =>
    obtain ⟨x, others, first, rest, rfl⟩ := mapM_cons_ok coerced
    have here := outcome_of_single (single o List.mem_cons_self) first
    have more := ih (fun o member => single o (List.mem_cons_of_mem _ member)) rest
    refine ⟨fun y member => ?_, congrArg Nat.succ more.2.1, ?_⟩
    · rcases List.mem_cons.mp member with rfl | member
      · exact here.1
      · exact more.1 y member
    · rw [List.mapM_cons, here.2, more.2.2, Operand.coercedValues]

/-- The text of a condition means what the comparison it is planned for does with coerced values. -/
theorem means_condition (valid : DocumentStore.checkName collection = .ok ())
    {target : Field} {condition : Condition} (formed : c.Formed)
    (is : IsWord target.name.toList)
    (planned : scope.condition target c.relation c.operand = .ok condition) {b : Bindings}
    (named : AllNamed params ((conditionText collection target.name condition).run b).2) :
    Means params (some collection) .not
      ((conditionText collection target.name condition).run b).1 fun record =>
        (c.operand.coerced scope.params target).map
          (c.relation.holdsCoerced (record.present? target.name)) := by
  rcases c with ⟨name, relation, operand, negated⟩
  have step : scope.Planned target relation operand condition := Scope.planned_of_condition planned
  cases step with
  | @compare k _ x coerced =>
    have single := formed.single rfl rfl
    have alone := (Operand.coerced_of_single scope.params target single).1
    have here := outcome_of_single single coerced
    obtain ⟨o, readsAs, value⟩ := reads_operandText here.1 named
    have means := means_single valid is (relates_documentWord k) readsAs rfl rfl
    simp only [value, here.2, ← alone] at means
    exact means
  | @oneOf items operands coerced =>
    obtain ⟨some, all⟩ := formed.items rfl
    have here := outcomes_of_singles all coerced
    obtain ⟨texts, same, length, reads, evaluates⟩ := reads_operands here.1 named
    have means := means_list valid is (ne_nil_of_length some (length.trans here.2.1)) reads
    rw [← same, evaluates, here.2.2] at means
    simp only [Operand.coerced]
    cases values : Operand.coercedValues scope.params target items with
    | error fault =>
      rw [values] at means
      exact means
    | ok vs =>
      rw [values] at means
      exact means
  | @like _ v _ coerced pattern =>
    have value : operand.coercedValue scope.params target = .ok v := by
      rw [Operand.coercedValue, coerced]
    have alone := (Operand.coerced_of_single scope.params target (formed.single rfl rfl)).1
    have unnamed := patternCondition_name pattern ""
    simp only [alone, value]
    rcases patternCondition_cases pattern with ⟨text, rfl⟩ | ⟨lower, upper, rfl⟩
    · simp only [Except.map, Relation.holdsCoerced, patternHolds, unnamed]
      exact means_exactly valid is text named
    · simp only [Except.map, Relation.holdsCoerced, patternHolds, unnamed]
      exact means_between valid is lower upper named
  | isNull _ =>
    cases formed.nothing rfl
    have words : " " ++ "IS NULL" = " IS NULL" := rfl
    have means : Means params (some collection) .not _ _ :=
      means_nothing valid is relates_isNull rfl
    rw [String.append_assoc, words] at means
    exact means
  | isNotNull _ =>
    cases formed.nothing rfl
    have words : " " ++ "IS NOT NULL" = " IS NOT NULL" := rfl
    have means : Means params (some collection) .not _ _ :=
      means_nothing valid is relates_isNotNull rfl
    rw [String.append_assoc, words] at means
    exact means

theorem means_planTest (valid : DocumentStore.checkName collection = .ok ())
    {p : Plan} (formed : c.Formed)
    (planned : scope.planTest c = .ok p) {b : Bindings}
    (named : AllNamed params ((planText collection p).run b).2) :
    Means params (some collection) .not ((planText collection p).run b).1
      fun r => scope.testHolds r c := by
  obtain ⟨target, condition, resolved, conditioned, rfl⟩ := Scope.planTest_cases planned
  have is : IsWord target.name.toList := Scope.resolve_isWord resolved formed.field
  have run : (planText collection (.test target.name condition c.negated)).run b =
      (if c.negated then
          "NOT (" ++ ((conditionText collection target.name condition).run b).1 ++ ")"
        else ((conditionText collection target.name condition).run b).1,
        ((conditionText collection target.name condition).run b).2) := by
    rw [planText]
    rfl
  rw [run] at named ⊢
  have means := means_condition valid formed is conditioned (b := b) named
  simp only [Scope.testHolds_of_resolved resolved]
  cases c.negated with
  | false =>
    simp only [Bool.bne_false, Bool.false_eq_true, if_false]
    obtain ⟨g, reads, holds⟩ := means
    refine ⟨g, reads, fun r => (holds r).trans ?_⟩
    cases c.operand.coerced scope.params target <;> rfl
  | true =>
    simp only [Bool.bne_true, if_true]
    exact means.toAnd.toOr.negated "NOT" (by decide) rfl

theorem means_children {fs : List Filter} {ps : List Plan}
    (each : ∀ f ∈ fs, ∀ p b, scope.plan f = .ok p →
      AllNamed params ((planText collection p).run b).2 →
      Stands params (some collection) p.isChain ((planText collection p).run b).1
        fun r => f.holdsBy (scope.testHolds r))
    (planned : scope.planAll fs = .ok ps) {b : Bindings}
    (named : AllNamed params ((childTexts collection ps).run b).2) :
    ∃ items : List Phrase, items.map Prod.fst = ((childTexts collection ps).run b).1 ∧
      items.length = fs.length ∧
      (∀ item ∈ items, Means params (some collection) .not item.1 item.2) ∧
      ∀ r, items.map (fun item => item.2 r) = fs.map (holdsBy (scope.testHolds r)) := by
  induction fs generalizing ps b with
  | nil =>
    cases planned
    exact ⟨[], rfl, rfl, nofun, fun r => rfl⟩
  | cons f fs ih =>
    obtain ⟨p, others, first, rest, rfl⟩ := Scope.planAll_cons_cases planned
    let after := ((planText collection p).run b).2
    have run : (childTexts collection (p :: others)).run b =
        ((if p.isChain then "(" ++ ((planText collection p).run b).1 ++ ")"
            else ((planText collection p).run b).1) :: ((childTexts collection others).run after).1,
          ((childTexts collection others).run after).2) := by
      rw [childTexts]
      rfl
    rw [run] at named ⊢
    obtain ⟨items, texts, length, all, meanings⟩ :=
      ih (fun g member => each g (List.mem_cons_of_mem f member)) rest named
    have named' : AllNamed params after :=
      AllNamed.before named (grows_childTexts collection others)
    have stands := each f List.mem_cons_self p b first named'
    refine ⟨(if p.isChain then "(" ++ ((planText collection p).run b).1 ++ ")"
      else ((planText collection p).run b).1, fun r => f.holdsBy (scope.testHolds r)) :: items,
      ?_, ?_, ?_, fun r => ?_⟩
    · rw [List.map_cons, texts]
    · rw [List.length_cons, List.length_cons, length]
    · intro item member
      rcases List.mem_cons.mp member with rfl | member
      · exact stands.child
      · exact all item member
    · rw [List.map_cons, List.map_cons, meanings r]

theorem stands_plan (valid : DocumentStore.checkName collection = .ok ())
    {f : Filter} (formed : Formed Comparison.Formed f) :
    ∀ p b, scope.plan f = .ok p → AllNamed params ((planText collection p).run b).2 →
      Stands params (some collection) p.isChain ((planText collection p).run b).1
        fun r => f.holdsBy (scope.testHolds r) := by
  -- the induction is on the filter that is compiled, whatever was bound before it
  induction formed with
  | @test c formed =>
    intro p b planned named
    exact (means_planTest valid formed planned named).stands
  | @negation f _ ih =>
    intro p b planned named
    obtain ⟨q, inner, rfl⟩ := Scope.plan_negation_cases planned
    have run : (planText collection q.negate).run b =
        ("NOT (" ++ ((planText collection q).run b).1 ++ ")", ((planText collection q).run b).2) := by
      rw [planText]
      rfl
    rw [run] at named ⊢
    have means := (ih q b inner named).1.negated "NOT" (by decide) rfl
    simp only [← holdsBy_negate] at means
    exact means.stands
  | @chain op children is present _ ih =>
    intro p b planned named
    cases op with
    | not => exact absurd rfl is
    | and =>
      obtain ⟨ps, inner, rfl⟩ := Scope.plan_all_cases planned
      have run : (planText collection (.all ps)).run b =
          (" AND ".intercalate ((childTexts collection ps).run b).1,
            ((childTexts collection ps).run b).2) := by
        rw [planText]
        rfl
      rw [run] at named ⊢
      obtain ⟨items, texts, length, all, meanings⟩ := means_children ih inner named
      have means := means_chain_and "AND" " AND " (by decide) rfl rfl items
        (ne_nil_of_length present length) all
      simp only [texts, meanings, ← allHoldBy_eq_allOf] at means
      exact ⟨means.toOr, nofun⟩
    | or =>
      obtain ⟨ps, inner, rfl⟩ := Scope.plan_any_cases planned
      have run : (planText collection (.any ps)).run b =
          (" OR ".intercalate ((childTexts collection ps).run b).1,
            ((childTexts collection ps).run b).2) := by
        rw [planText]
        rfl
      rw [run] at named ⊢
      obtain ⟨items, texts, length, all, meanings⟩ := means_children ih inner named
      have means := means_chain_or "OR" " OR " (by decide) rfl rfl items
        (ne_nil_of_length present length) fun item member => (all item member).toAnd
      simp only [texts, meanings, ← anyHoldsBy_eq_anyOf] at means
      exact ⟨means, nofun⟩

/-- What a filter is compiled to has the meaning of the filter, with the bound values as parameters. -/
theorem means_compiled {compiler : Compiler}
    (valid : DocumentStore.checkName compiler.collection = .ok ()) {text : String} {f : Filter}
    {native : CompiledFilter} (parsed : Filter.parse compiler.params text = .ok (some f))
    (compiled : compiler.compile f = .ok native)
    (distinct : (native.params.map BoundParam.placeholder).Nodup) :
    (∃ p, Scope.plan ⟨.document, compiler.fields, compiler.params⟩ f = .ok p) ∧
      Means (NativeQuery.paramsByName ⟨"", native.params, none⟩) (some compiler.collection) .or
        native.text fun r =>
          f.holdsBy (Scope.testHolds ⟨.document, compiler.fields, compiler.params⟩ r) := by
  obtain ⟨p, planned, rfl⟩ := Compiler.plan_of_compile compiled
  obtain ⟨more, grown, shape⟩ := grows_planText compiler.collection p .none
  have bound : ((planText compiler.collection p).run .none).2.bound = more := grown
  rw [← bound] at shape
  exact ⟨⟨p, planned⟩, (stands_plan valid (formed_of_parse parsed) p .none planned
    (named_of_distinct distinct shape)).1⟩

/-- Compiling for a collection keeps the meaning: with the bound values as its parameters, the native
predicate is a filter again, and on every record it evaluates to what the filter compiled does with
fields resolved and values coerced, be it a truth value or a fault. -/
theorem compiled_predicate_meaning (compiler : Compiler)
    (valid : DocumentStore.checkName compiler.collection = .ok ()) {text : String} {f : Filter}
    {native : CompiledFilter} (parsed : Filter.parse compiler.params text = .ok (some f))
    (compiled : compiler.compile f = .ok native)
    (distinct : (native.params.map BoundParam.placeholder).Nodup) :
    let bound := NativeQuery.paramsByName ⟨native.text, native.params, none⟩
    ∃ g, Filter.parse bound native.text = .ok (some g) ∧
      ∀ r, g.holds bound (some compiler.collection) r =
        f.holdsBy (Scope.testHolds ⟨.document, compiler.fields, compiler.params⟩ r) := by
  obtain ⟨-, means⟩ := means_compiled valid parsed compiled distinct
  exact means.parse

/-- A parameter, a pattern and a call under a negation, in a collection that is open to any field. -/
theorem compiled_predicate_meaning_of_call :
    let bound : Params := NativeQuery.paramsByName
      ⟨"docs.a >= @a1 AND NOT ((docs.a >= @a2 AND docs.a < @a3) OR docs.c = f(1))",
        [⟨"@a1", .int 3⟩, ⟨"@a2", .string "x"⟩, ⟨"@a3", .string "y"⟩], none⟩
    ∃ g, Filter.parse bound
        "docs.a >= @a1 AND NOT ((docs.a >= @a2 AND docs.a < @a3) OR docs.c = f(1))" =
        .ok (some g) ∧
      ∀ r, g.holds bound (some "docs") r =
        (Filter.combine .and [.test ⟨"a", .compare .ge, .param "k", false⟩,
          .combine .not [.combine .or [.test ⟨"a", .like, .literal "'x%'", false⟩,
            .test ⟨"c", .compare .eq, .call "f(1)", false⟩]]]).holdsBy
          (Scope.testHolds ⟨.document, FieldMap.openFor .document, [("k", .int 3)]⟩ r) := by
  have parsed : Filter.parse [("k", .int 3)] "a >= @k and not (a like 'x%' or c = f(1))" =
      .ok (some (.combine .and [.test ⟨"a", .compare .ge, .param "k", false⟩,
        .combine .not [.combine .or [.test ⟨"a", .like, .literal "'x%'", false⟩,
          .test ⟨"c", .compare .eq, .call "f(1)", false⟩]]])) := by
    decide +kernel
  have compiled : Compiler.compile ⟨"docs", FieldMap.openFor .document, [("k", .int 3)]⟩
      (.combine .and [.test ⟨"a", .compare .ge, .param "k", false⟩,
        .combine .not [.combine .or [.test ⟨"a", .like, .literal "'x%'", false⟩,
          .test ⟨"c", .compare .eq, .call "f(1)", false⟩]]]) =
      .ok ⟨"docs.a >= @a1 AND NOT ((docs.a >= @a2 AND docs.a < @a3) OR docs.c = f(1))",
        [⟨"@a1", .int 3⟩, ⟨"@a2", .string "x"⟩, ⟨"@a3", .string "y"⟩]⟩ := rfl
  have meaning := compiled_predicate_meaning
    ⟨"docs", FieldMap.openFor .document, [("k", .int 3)]⟩ rfl parsed compiled (by decide)
  exact meaning

end StoreGateway.DocumentQuery

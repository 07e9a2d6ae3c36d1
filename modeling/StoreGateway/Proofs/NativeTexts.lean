import StoreGateway.Proofs.ClauseWords
import StoreGateway.Proofs.KeyLists
import StoreGateway.Proofs.Readback
import StoreGateway.Proofs.Refusals

/-!
What is compiled from a filter reads as a filter again: every predicate of a collection with the
values bound in it, and every text for the entity table unless a field is named as a negation is.
-/

namespace StoreGateway

namespace Filter

variable {params : Params} {rank : Rank} {text : String}

def Readable (params : Params) (rank : Rank) (text : String) : Prop :=
  ∃ f, Reads params rank text.toList f

theorem Means.readable {qualifier : Option String} {meaning : Record → Except EvalFault Bool}
    (means : Means params qualifier rank text meaning) : Readable params rank text := by
  obtain ⟨f, reads, -⟩ := means
  exact ⟨f, reads⟩

theorem Readable.parse (readable : Readable params .or text) :
    ∃ f, Filter.parse params text = .ok (some f) := by
  obtain ⟨f, reads⟩ := readable
  exact ⟨f, by rw [← reads.parse, String.ofList_toList]⟩

theorem Readable.toOr (readable : Readable params .not text) : Readable params .or text := by
  obtain ⟨f, reads⟩ := readable
  exact ⟨f, reads.toAnd.toOr⟩

theorem Readable.group (readable : Readable params .or text) :
    Readable params .not ("(" ++ text ++ ")") := by
  obtain ⟨f, reads⟩ := readable
  refine ⟨f, ?_⟩
  rw [toList_group]
  exact reads.group

theorem exists_readings {α : Type} {known : List Char × α → Prop} {texts : List String}
    (all : ∀ t ∈ texts, ∃ a, known (t.toList, a)) : ∃ readings : List (List Char × α),
      texts = readings.map (fun next => String.ofList next.1) ∧ ∀ next ∈ readings, known next := by
  obtain ⟨pairs, rfl, each⟩ := exists_pairs all
  refine ⟨pairs.map fun p => (p.1.toList, p.2), ?_, fun next member => ?_⟩
  · rw [List.map_map]
    exact List.map_congr_left fun p _ => String.ofList_toList.symm
  · obtain ⟨p, inside, rfl⟩ := List.mem_map.mp member
    exact each p inside

variable {word : List Char} {op : Connective} {item whole : Rank} {rest : Filter → Rank}

theorem readable_chain (separator : String) (links : Links word op item whole rest)
    (spaced : separator.toList = ' ' :: (word ++ [' '])) {texts : List String}
    (present : texts ≠ []) (all : ∀ t ∈ texts, Readable params item t) :
    Readable params whole (separator.intercalate texts) := by
  obtain ⟨items, rfl, each⟩ := exists_pairs all
  cases items with
  | nil => exact absurd rfl present
  | cons first more => exact ⟨_, links.reads_joined spaced each⟩

theorem refuses_chain (separator : String) (links : Links word op item whole rest)
    (unlinks : Unlinks word item whole rest) (spaced : separator.toList = ' ' :: (word ++ [' ']))
    {texts : List String}
    (all : ∀ t ∈ texts, Readable params item t ∨ Refuses params item t.toList)
    (spoiled : ∃ t ∈ texts, Refuses params item t.toList) :
    Refuses params whole (separator.intercalate texts).toList := by
  obtain ⟨readings, same, each⟩ := @exists_readings _ (Settled params item) texts fun t member => by
    rcases all t member with ⟨f, reads⟩ | refuses
    · exact ⟨f, .inl reads⟩
    · exact ⟨.combine .and [], .inr refuses⟩
  obtain ⟨t, member, refuses⟩ := spoiled
  rw [same] at member
  obtain ⟨next, inside, rfl⟩ := List.mem_map.mp member
  rw [String.toList_ofList] at refuses
  cases readings with
  | nil => cases inside
  | cons first more =>
    rw [same, List.map_cons, toList_intercalate_chain spaced, String.toList_ofList]
    exact unlinks.refuses links first more each ⟨next, inside, refuses⟩

end Filter

namespace DocumentQuery

open StoreGateway.Filter

variable {params : Params} {collection field : String} {scope : Scope} {c : Comparison}

theorem closed_readable : Closed (Readable params .not) (Readable params .or) where
  toChain readable := readable.toOr
  negation := by
    rintro text ⟨f, reads⟩
    have negated := @Reads.negated _ "NOT".toList _ _ reads.group (by decide) rfl
    refine ⟨negate f, ?_⟩
    rw [show "NOT (" ++ text ++ ")" = "NOT" ++ " (" ++ text ++ ")" from rfl, toList_negated]
    exact negated
  group := Readable.group
  all present each := by
    obtain ⟨f, reads⟩ := readable_chain " AND " (@links_and "AND".toList (by decide) rfl) rfl
      present each
    exact ⟨f, reads.toOr⟩
  any present each := by
    refine readable_chain " OR " (@links_or "OR".toList (by decide) rfl) rfl present
      fun t member => ?_
    obtain ⟨f, reads⟩ := each t member
    exact ⟨f, reads.toAnd⟩

theorem readsAs_operandText {x : Coerced} (is : IsOperand x) (b : Bindings) :
    ∃ o, ReadsAs params ((operandText field x).run b).1.toList o := by
  cases x with
  | value v =>
    obtain ⟨name, same, -, letters⟩ := isPlaceholder_next b.given field
    have written : ((operandText field (.value v)).run b).1.toList = '@' :: name := by
      rw [show ((operandText field (.value v)).run b).1 = _ from same]
      simp
    rw [written]
    exact ⟨_, readsAs_sigil fun c member => (letters c member).1⟩
  | native raw => exact ⟨_, (is raw rfl).readsAs⟩

theorem readsAs_operands {operands : List Coerced} (all : ∀ x ∈ operands, IsOperand x)
    (b : Bindings) : ∃ items : List (List Char × Operand),
      ((operands.mapM (operandText field)).run b).1 = items.map (fun i => String.ofList i.1) ∧
      items.length = operands.length ∧ ∀ i ∈ items, ReadsAs params i.1 i.2 := by
  obtain ⟨length, each⟩ := operandTexts_each field operands b
  obtain ⟨items, texts, reads⟩ := @exists_readings _ (fun i => ReadsAs params i.1 i.2)
    ((operands.mapM (operandText field)).run b).1 fun t member => by
      obtain ⟨x, inside, before, rfl⟩ := each t member
      exact readsAs_operandText (all x inside) before
  refine ⟨items, texts, ?_, reads⟩
  rw [← length, texts, List.length_map]

theorem readable_compared (valid : DocumentStore.checkName collection = .ok ())
    (is : IsWord field.toList) (k : Comparator) {x : Coerced} (operand : IsOperand x)
    (b : Bindings) : Readable params .not (StoreKind.document.qualify collection field ++ " " ++
      k.documentWord ++ " " ++ ((operandText field x).run b).1) := by
  obtain ⟨o, readsAs⟩ : ∃ o, ReadsAs params ((operandText field x).run b).1.toList o :=
    readsAs_operandText operand b
  exact (means_single valid is (relates_documentWord k) readsAs rfl rfl).readable

theorem readable_conditionText (valid : DocumentStore.checkName collection = .ok ())
    {target : Field} {condition : Condition} (formed : c.Formed)
    (is : IsWord target.name.toList)
    (planned : scope.condition target c.relation c.operand = .ok condition) (b : Bindings) :
    Readable params .not ((conditionText collection target.name condition).run b).1 := by
  have text (k : Comparator) (s : String) (b : Bindings) : Readable params .not
      (StoreKind.document.qualify collection target.name ++ " " ++ k.documentWord ++ " " ++
        ((operandText target.name (.value (.string s))).run b).1) :=
    readable_compared valid is k (fun raw same => by cases same) b
  rcases c with ⟨name, relation, operand, negated⟩
  have step : scope.Planned target relation operand condition := Scope.planned_of_condition planned
  cases step with
  | @compare k _ x coerced =>
    exact readable_compared valid is k (outcome_of_single (formed.single rfl rfl) coerced).1 b
  | oneOf coerced =>
    obtain ⟨some, all⟩ := formed.items rfl
    obtain ⟨each, length, -⟩ := outcomes_of_singles all coerced
    obtain ⟨readings, texts, length', reads⟩ := readsAs_operands each b
    have means := means_list valid is (ne_nil_of_length some (length'.trans length)) reads
    rw [← texts] at means
    exact means.readable
  | like coerced pattern =>
    rcases patternCondition_cases pattern with ⟨s, rfl⟩ | ⟨lower, upper, rfl⟩
    · have here := text .eq s b
      rw [← spaced _ _ .eq " = " rfl] at here
      exact here
    · cases upper with
      | none =>
        have here := text .ge lower b
        rw [← spaced _ _ .ge " >= " rfl] at here
        exact here
      | some upper =>
        rw [conditionText_between]
        refine closed_readable.group (closed_readable.all (List.cons_ne_nil _ _) fun t member => ?_)
        rcases List.mem_cons.mp member with rfl | member
        · exact text .ge lower b
        · rw [List.mem_singleton.mp member]
          exact text .lt upper _
  | isNull _ =>
    have means : Means params (some collection) .not _ _ :=
      means_nothing valid is relates_isNull rfl
    rw [String.append_assoc] at means
    exact means.readable
  | isNotNull _ =>
    have means : Means params (some collection) .not _ _ :=
      means_nothing valid is relates_isNotNull rfl
    rw [String.append_assoc] at means
    exact means.readable

theorem readable_planTest (valid : DocumentStore.checkName collection = .ok ())
    (formed : c.Formed) (p : Plan) (b : Bindings)
    (planned : scope.planTest c = .ok p) :
    Readable params .not ((planText collection p).run b).1 := by
  obtain ⟨target, condition, resolved, conditioned, rfl⟩ := Scope.planTest_cases planned
  have readable : Readable params .not _ := readable_conditionText valid formed
    (Scope.resolve_isWord resolved formed.field) conditioned b
  rw [planText]
  cases c.negated with
  | false => exact readable
  | true => exact closed_readable.negation readable.toOr

/-- The predicate of a collection reads as a filter, whatever its placeholders are bound to. -/
theorem readable_compiled {compiler : Compiler}
    (valid : DocumentStore.checkName compiler.collection = .ok ()) {f : Filter}
    {native : CompiledFilter} (formed : Formed Comparison.Formed f)
    (compiled : compiler.compile f = .ok native) : Readable params .or native.text := by
  obtain ⟨p, planned, rfl⟩ := Compiler.plan_of_compile compiled
  exact (closed_readable.planText
    (fun c formed p b planned => readable_planTest valid formed p b planned)
    formed p .none planned).2

end DocumentQuery

/-- The field of the comparison has the name that a negation has. -/
def Comparison.Negates (c : Comparison) : Prop := Text.asciiLower c.field = "not"

instance (c : Comparison) : Decidable c.Negates :=
  inferInstanceAs (Decidable (Text.asciiLower c.field = "not"))

/-- Some field of the filter has the name that a negation has. -/
def Filter.Negates (f : Filter) : Prop := ∃ c ∈ f.comparisons, c.Negates

instance (f : Filter) : Decidable f.Negates :=
  inferInstanceAs (Decidable (∃ c ∈ f.comparisons, c.Negates))

namespace Entity

open StoreGateway.Filter

variable {scope : Scope} {c : Comparison} {name : String}

theorem namesField_of_other (other : ¬ c.Negates) : NamesField scope c := by
  intro field resolved negates
  exact other ((Scope.resolve_asciiLower resolved).symm.trans negates)

theorem refuses_value (is : IsWord name.toList) (negates : Text.asciiLower name = "not")
    (k : Comparator) (v : Value) :
    Refuses [] .not (name ++ " " ++ k.entityWord ++ " " ++ Literal.text v).toList := by
  have word : IsWord k.entityWord.toList := by
    cases k <;> exact isWord_iff.mp (by decide)
  have other : Text.asciiLower (String.ofList k.entityWord.toList) ≠ "not" := by
    cases k <;> decide
  have same : (name ++ " " ++ k.entityWord ++ " " ++ Literal.text v).toList =
      name.toList ++ ' ' :: (k.entityWord.toList ++ ' ' :: (Literal.text v).toList) := by simp
  rw [same]
  exact refuses_compared is (by rwa [String.ofList_toList]) word other (readsAs_text v) (bland_text v)

theorem refuses_group {text : String} (refuses : Refuses [] .or text.toList) :
    Refuses [] .not ("(" ++ text ++ ")").toList := by
  rw [toList_group]
  exact refuses.group

theorem refuses_all {texts : List String}
    (all : ∀ t ∈ texts, Readable [] .not t ∨ Refuses [] .not t.toList)
    (spoiled : ∃ t ∈ texts, Refuses [] .not t.toList) :
    Refuses [] .or (" and ".intercalate texts).toList :=
  (refuses_chain " and " (@links_and "and".toList (by decide) rfl) (unlinks_and rfl) rfl all
    spoiled).toOr

theorem refuses_any {texts : List String}
    (all : ∀ t ∈ texts, Readable [] .not t ∨ Refuses [] .not t.toList)
    (spoiled : ∃ t ∈ texts, Refuses [] .not t.toList) :
    Refuses [] .or (" or ".intercalate texts).toList := by
  refine refuses_chain " or " (@links_or "or".toList (by decide) rfl) (unlinks_or rfl) rfl
    (fun t member => ?_) ?_
  · rcases all t member with ⟨f, reads⟩ | refuses
    · exact .inl ⟨f, reads.toAnd⟩
    · exact .inr refuses.toAnd
  · obtain ⟨t, member, refuses⟩ := spoiled
    exact ⟨t, member, refuses.toAnd⟩

theorem refuses_condition {field : Field} {condition : Condition} (table : scope.kind = .table)
    (formed : c.Formed) (call_free : c.CallFree) (is : IsWord field.name.toList)
    (negates : Text.asciiLower field.name = "not")
    (planned : scope.condition field c.relation c.operand = .ok condition) :
    Refuses [] .not (conditionText field.name condition).toList := by
  have text (k : Comparator) (s : String) : Refuses [] .not
      (field.name ++ " " ++ k.entityWord ++ " " ++ Literal.quote s).toList :=
    refuses_value is negates k (.string s)
  rcases c with ⟨name, relation, operand, negated⟩
  have step : scope.Planned field relation operand condition := Scope.planned_of_condition planned
  cases step with
  | @compare k _ x coerced =>
    have single := formed.single rfl rfl
    obtain ⟨-, singles⟩ := Operand.coerced_of_single scope.params field single
    rcases Operand.coerce_single single coerced with ⟨v, rfl, -⟩ | ⟨raw, call, -⟩
    · exact refuses_value is negates k v
    · exact absurd call (call_free operand (by rw [singles]; simp) raw)
  | @oneOf items operands coerced =>
    obtain ⟨some, all⟩ := formed.items rfl
    have no_call : ∀ o ∈ items, ∀ raw, o ≠ .call raw := call_free
    obtain ⟨values, rfl, -, length, -⟩ := coerceAll no_call all coerced
    have each : ∀ t ∈ (values.map Coerced.value).map
        (fun o => equality field.name (operandText o)), Refuses [] .not t.toList := by
      intro t member
      obtain ⟨o, inside, rfl⟩ := List.mem_map.mp member
      obtain ⟨v, -, rfl⟩ := List.mem_map.mp inside
      rw [equality_eq]
      exact refuses_value is negates .eq v
    obtain ⟨v, others, rfl⟩ := List.exists_cons_of_ne_nil (ne_nil_of_length some length)
    exact refuses_group (refuses_any (fun t member => .inr (each t member))
      ⟨_, List.mem_cons_self, each _ List.mem_cons_self⟩)
  | like coerced pattern =>
    rcases patternCondition_cases pattern with ⟨s, rfl⟩ | ⟨lower, upper, rfl⟩
    · rw [conditionText, equality_eq]
      exact text .eq s
    · cases upper with
      | none =>
        have atLeast : " ge " = " " ++ Comparator.ge.entityWord ++ " " := rfl
        simp only [conditionText, atLeast, ← String.append_assoc]
        exact text .ge lower
      | some upper =>
        have each : ∀ t ∈ [field.name ++ " " ++ Comparator.ge.entityWord ++ " " ++
            Literal.quote lower, field.name ++ " " ++ Comparator.lt.entityWord ++ " " ++
            Literal.quote upper], Refuses [] .not t.toList := by
          intro t member
          rcases List.mem_cons.mp member with rfl | member
          · exact text .ge lower
          · rw [List.mem_singleton.mp member]
            exact text .lt upper
        rw [conditionText_between]
        exact refuses_group (refuses_all (fun t member => .inr (each t member))
          ⟨_, List.mem_cons_self, each _ List.mem_cons_self⟩)
  | isNull document => exact absurd document (Scope.not_document table)
  | isNotNull document => exact absurd document (Scope.not_document table)

theorem Refuses.negatedText {text : String} (refuses : Refuses [] .or text.toList) :
    Refuses [] .not ("not (" ++ text ++ ")").toList := by
  have is : IsWord "not".toList := isWord_iff.mp (by decide)
  have negated := refuses.negatedGroup is rfl
  rw [← toList_negated] at negated
  exact negated

theorem refuses_planTest {p : Plan} (table : scope.kind = .table) (formed : c.Formed)
    (call_free : c.CallFree) (negates : c.Negates) (planned : scope.planTest c = .ok p) :
    Refuses [] .not (planText p).toList := by
  obtain ⟨field, condition, resolved, conditioned, rfl⟩ := Scope.planTest_cases planned
  have refuses := refuses_condition table formed call_free
    (Scope.resolve_isWord resolved formed.field)
    ((Scope.resolve_asciiLower resolved).trans negates) conditioned
  rw [planText]
  cases c.negated with
  | false => exact refuses
  | true => exact Refuses.negatedText refuses.toAnd.toOr

/-- The texts of a chain's children: each is readable or read nowhere, and one of them is read nowhere
if a field in one of the children has the name of a negation. -/
theorem settled_childTexts (table : scope.kind = .table) {fs : List Filter} {ps : List Plan}
    (formed : ∀ f ∈ fs, Formed Comparison.Formed f)
    (each : ∀ f ∈ fs, ∀ p, scope.plan f = .ok p → f.Negates →
      Refuses [] .or (planText p).toList ∧
        (p.isChain = false → Refuses [] .not (planText p).toList))
    (planned : scope.planAll fs = .ok ps) :
    (∀ t ∈ childTexts ps, Readable [] .not t ∨ Refuses [] .not t.toList) ∧
      ((∃ f ∈ fs, f.Negates) → ∃ t ∈ childTexts ps, Refuses [] .not t.toList) := by
  have refused {f : Filter} (member : f ∈ fs) {p : Plan} (planned : scope.plan f = .ok p)
      (negates : f.Negates) : Refuses [] .not (childText p).toList := by
    obtain ⟨chained, bare⟩ := each f member p planned negates
    unfold childText
    cases is : p.isChain with
    | true => exact refuses_group chained
    | false => exact bare is
  rw [Scope.planAll_eq_mapM] at planned
  obtain ⟨forth, back⟩ := mapM_ok planned
  rw [childTexts_eq_map]
  refine ⟨fun t member => ?_, fun spoiled => ?_⟩
  · obtain ⟨p, inside, rfl⟩ := List.mem_map.mp member
    obtain ⟨f, child, planned⟩ := back p inside
    by_cases negates : f.Negates
    · exact .inr (refused child planned negates)
    · have names : ∀ c ∈ f.comparisons, NamesField scope c := fun c inside =>
        namesField_of_other fun named => negates ⟨c, inside, named⟩
      exact .inl (stands_written table (formed f child) names p planned).child.readable
  · obtain ⟨f, child, negates⟩ := spoiled
    obtain ⟨p, inside, planned⟩ := forth f child
    exact ⟨childText p, List.mem_map_of_mem inside, refused child planned negates⟩

theorem refuses_plan (table : scope.kind = .table) {f : Filter}
    (formed : Formed (fun c => c.Formed ∧ (c.Negates → c.CallFree)) f) :
    ∀ p, scope.plan f = .ok p → f.Negates → Refuses [] .or (planText p).toList ∧
      (p.isChain = false → Refuses [] .not (planText p).toList) := by
  induction formed with
  | @test c demand =>
    rintro p planned ⟨c', member, negates⟩
    cases List.mem_singleton.mp member
    have refuses := refuses_planTest table demand.1 (demand.2 negates) negates planned
    exact ⟨refuses.toAnd.toOr, fun _ => refuses⟩
  | @negation f _ ih =>
    rintro p planned ⟨c, member, negates⟩
    obtain ⟨q, inner, rfl⟩ := Scope.plan_negation_cases planned
    obtain ⟨g, inside, found⟩ := exists_of_mem_comparisonsAll member
    cases List.mem_singleton.mp inside
    have refuses := Refuses.negatedText (ih q inner ⟨c, found, negates⟩).1
    exact ⟨refuses.toAnd.toOr, fun _ => refuses⟩
  | @chain op children is present formed ih =>
    rintro p planned ⟨c, member, negates⟩
    obtain ⟨g, inside, found⟩ := exists_of_mem_comparisonsAll member
    have plain : ∀ f ∈ children, Formed Comparison.Formed f := fun f member =>
      (formed f member).imp fun _ demand => demand.1
    cases op with
    | not => exact absurd rfl is
    | and =>
      obtain ⟨ps, inner, rfl⟩ := Scope.plan_all_cases planned
      obtain ⟨all, spoiled⟩ := settled_childTexts table plain ih inner
      exact ⟨refuses_all all (spoiled ⟨g, inside, c, found, negates⟩), nofun⟩
    | or =>
      obtain ⟨ps, inner, rfl⟩ := Scope.plan_any_cases planned
      obtain ⟨all, spoiled⟩ := settled_childTexts table plain ih inner
      exact ⟨refuses_any all (spoiled ⟨g, inside, c, found, negates⟩), nofun⟩

namespace Compiler

variable {compiler : Compiler} {f : Filter} {native : CompiledFilter}

/-- The compiler makes the text from the filter, as a whole or as one of its pieces. -/
def Emits (compiler : Compiler) (f : Filter) (native : CompiledFilter) : Prop :=
  compiler.compile f = .ok native ∨
    ∃ pieces, compiler.compileChunks f = .ok pieces ∧ native ∈ pieces

theorem ListsKeys.not_negates {ids : List String} {partition : Option String}
    (lists : ListsKeys compiler f ids partition) : ¬ f.Negates := by
  rintro ⟨c, member, negates⟩
  obtain ⟨field, resolved, key⟩ : ∃ field, compiler.scope.resolve c.field = .ok field ∧
      (field.name = rowKey ∨ field.name = partitionKey) := by
    rcases lists.each c member with rows | ⟨p, -, names⟩
    · obtain ⟨items, field, -, -, resolved, key, -⟩ := rows.texts
      exact ⟨field, resolved, .inl key⟩
    · obtain ⟨field, resolved, key, -⟩ := names.text
      exact ⟨field, resolved, .inr key⟩
  have same := (Scope.resolve_asciiLower resolved).trans negates
  rcases key with key | key
  · rw [key] at same
    exact absurd same (by decide)
  · rw [key] at same
    exact absurd same (by decide)

theorem Emits.cases (emits : compiler.Emits f native) :
    compiler.compile f = .ok native ∨ (¬ f.Negates ∧ Readable [] .or native.text) := by
  rcases emits with whole | ⟨pieces, split, member⟩
  · exact .inl whole
  · rcases compileChunks_cases split with ⟨ids, partition, oversized, rfl⟩ | ⟨-, whole, compiled, rfl⟩
    · obtain ⟨text, inside, rfl⟩ := List.mem_map.mp member
      obtain ⟨piece, here, rfl⟩ := List.mem_map.mp inside
      exact .inr ⟨(oversizedIds_cases oversized).not_negates,
        (means_keys partition (mem_chunks here)).readable⟩
    · cases List.mem_singleton.mp member
      exact .inl compiled

theorem Emits.parses (emits : compiler.Emits f native) (formed : Formed Comparison.Formed f)
    (other : ¬ f.Negates) : ∃ g, Filter.parse [] native.text = .ok (some g) := by
  rcases emits.cases with compiled | ⟨-, readable⟩
  · have names : ∀ c ∈ f.comparisons, NamesField compiler.scope c := fun c inside =>
      namesField_of_other fun named => other ⟨c, inside, named⟩
    obtain ⟨-, g, parses, -⟩ := compiled_written compiled formed names
    exact ⟨g, parses⟩
  · exact readable.parse

theorem Emits.refused (emits : compiler.Emits f native) (formed : Formed Comparison.Formed f)
    (negates : f.Negates) (call_free : ∀ c ∈ f.comparisons, c.Negates → c.CallFree)
    (parsed : Option Filter) : Filter.parse [] native.text ≠ .ok parsed := by
  have compiled := emits.cases.resolve_right fun other => other.1 negates
  obtain ⟨p, planned, rfl⟩ := plan_of_compile compiled
  have refuses := (refuses_plan rfl (formed.and call_free) p planned negates).1.parse parsed
  rwa [String.ofList_toList] at refuses

end Compiler

end Entity

/-- What is compiled from a text that parses is a text that parses again. The predicate of a
collection does with the values bound in it. The text for the entity table does if no field has the
name of a negation; it does not if some field has, and no such field is compared with a call. -/
theorem native_texts_reread (fields : FieldMap) {params : Params} {text : String} {f : Filter}
    (parsed : Filter.parse params text = .ok (some f)) :
    (∀ collection native, DocumentStore.checkName collection = .ok () →
      DocumentQuery.Compiler.compile ⟨collection, fields, params⟩ f = .ok native →
      ∃ g, Filter.parse (NativeQuery.paramsByName ⟨native.text, native.params, none⟩) native.text =
        .ok (some g)) ∧
    ∀ maxIds native, Entity.Compiler.Emits ⟨fields, params, maxIds⟩ f native →
      (¬ f.Negates → ∃ g, Filter.parse [] native.text = .ok (some g)) ∧
      (f.Negates → (∀ c ∈ f.comparisons, c.Negates → c.CallFree) →
        ∀ parsed, Filter.parse [] native.text ≠ .ok parsed) := by
  have formed := Filter.formed_of_parse parsed
  refine ⟨fun collection native valid compiled => ?_, fun maxIds native emits => ⟨?_, ?_⟩⟩
  · let compiler : DocumentQuery.Compiler := ⟨collection, fields, params⟩
    have valid' : DocumentStore.checkName compiler.collection = .ok () := valid
    exact (DocumentQuery.readable_compiled valid' formed compiled).parse
  · exact emits.parses formed
  · exact emits.refused formed

/-- Fields named as the words of the language are: they read back, but for one named as a negation
is in a text for the entity table. -/
theorem native_texts_reread_of_words :
    (∃ g, Filter.parse (NativeQuery.paramsByName
        ⟨"docs.and = @and1 OR docs.not <> @not1", [⟨"@and1", .int 1⟩, ⟨"@not1", .string "x"⟩], none⟩)
      "docs.and = @and1 OR docs.not <> @not1" = .ok (some g)) ∧
    (∀ parsed, Filter.parse [] "and eq 1 or not ne 'x'" ≠ .ok parsed) ∧
    ∃ g, Filter.parse [] "in ge 2 and null eq 'x'" = .ok (some g) := by
  have negating : Filter.parse [] "and = 1 or not <> x" =
      .ok (some (.combine .or [.test ⟨"and", .compare .eq, .literal "1", false⟩,
        .test ⟨"not", .compare .ne, .literal "x", false⟩])) := by
    decide +kernel
  have other : Filter.parse [] "in >= 2 and null = x" =
      .ok (some (.combine .and [.test ⟨"in", .compare .ge, .literal "2", false⟩,
        .test ⟨"null", .compare .eq, .literal "x", false⟩])) := by
    decide +kernel
  have written : DocumentQuery.Compiler.compile ⟨"docs", FieldMap.openFor .document, []⟩
      (.combine .or [.test ⟨"and", .compare .eq, .literal "1", false⟩,
        .test ⟨"not", .compare .ne, .literal "x", false⟩]) =
      .ok ⟨"docs.and = @and1 OR docs.not <> @not1", [⟨"@and1", .int 1⟩, ⟨"@not1", .string "x"⟩]⟩ :=
    rfl
  refine ⟨?_, ?_, ?_⟩
  · have reread := (native_texts_reread (FieldMap.openFor .document) negating).1 "docs" _
      rfl written
    exact reread
  · refine ((native_texts_reread (FieldMap.openFor .table) negating).2 14 _ (.inl rfl)).2
      (by decide) ?_
    intro c member _ o single raw
    have either : c ∈ [_, _] := member
    simp only [List.mem_cons, List.not_mem_nil, or_false] at either
    rcases either with rfl | rfl
    · cases List.mem_singleton.mp single
      exact nofun
    · cases List.mem_singleton.mp single
      exact nofun
  · exact ((native_texts_reread (FieldMap.openFor .table) other).2 14 _ (.inl rfl)).1
      (by decide)

/-- The comparison of a field named `not` is compiled to a text that the store does not read. -/
theorem native_text_not_reread :
    Filter.parse [] "not = 1" = .ok (some (.test ⟨"not", .compare .eq, .literal "1", false⟩)) ∧
    Entity.Compiler.compile ⟨FieldMap.openFor .table, [], 14⟩
      (.test ⟨"not", .compare .eq, .literal "1", false⟩) = .ok ⟨"not eq 1", []⟩ ∧
    Filter.parse [] "not eq 1" = .error (.misplaced .asRelation "1" 7) := by
  refine ⟨by decide +kernel, rfl, by decide +kernel⟩

end StoreGateway

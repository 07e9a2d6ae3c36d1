import StoreGateway.Proofs.Languages
import StoreGateway.Proofs.NativeTexts
import StoreGateway.Proofs.NormalForm

/-!
Texts of the entity table that are compiled again. Main statement: a text that a filter over scalars
is compiled to is compiled to a text again, and that text to itself.
-/

namespace StoreGateway

theorem FieldMap.resolve_again {map : FieldMap} {name : String} {field : Field}
    (resolved : map.resolve name = .ok field) : map.resolve field.name = .ok field := by
  unfold FieldMap.resolve at resolved
  split at resolved
  · next found =>
    cases resolved
    have again : map.get? field.name = some field := by
      unfold FieldMap.get? at found ⊢
      rcases Option.or_eq_some_iff.mp found with same | ⟨-, similar⟩
      · have is := List.find?_some same
        rwa [eq_of_beq is]
      · obtain ⟨-, before, after, whole, others⟩ := List.find?_eq_some_iff_append.mp similar
        have first : map.fields.find? (·.name == field.name) = some field := by
          refine List.find?_eq_some_iff_append.mpr
            ⟨beq_self_eq_true field.name, before, after, whole, fun other member => ?_⟩
          have apart := others other member
          have like := List.find?_some similar
          rw [Bool.not_eq_true'] at apart ⊢
          refine beq_eq_false_iff_ne.mpr fun named => ?_
          rw [named, like] at apart
          cases apart
        rw [first, Option.some_or]
    rw [FieldMap.resolve, again]
  · next unknown =>
    split at resolved
    · next takes =>
      cases resolved
      change FieldMap.resolve map name = _
      rw [FieldMap.resolve, unknown]
      exact if_pos takes
    · cases resolved

theorem Scope.resolve_fields {scope : Scope} {name : String} {field : Field} :
    scope.resolve name = .ok field ↔ scope.fields.resolve name = .ok field := by
  unfold Scope.resolve
  cases scope.fields.resolve name with
  | ok other => exact ⟨fun same => by cases same; rfl, fun same => by cases same; rfl⟩
  | error fault => exact ⟨nofun, nofun⟩

theorem conform_again {field : Field} {v w : Value} (conformed : conform field v = .ok w) :
    conform field w = .ok w := by
  cases conforms_of_conform conformed with
  | same => exact conformed
  | integer type | number type | boolean type | string type =>
    unfold conform
    simp only [type]

theorem conform_float (field : Field) (x : Binary64) : ∃ v, conform field (.float x) = .ok v := by
  unfold conform
  cases field.type with
  | string => exact ⟨.string (Json.write (.float x)), rfl⟩
  | integer | number | boolean | any => exact ⟨.float x, rfl⟩

theorem conform_text {field : Field} {v : Value} {s : String}
    (conformed : conform field v = .ok (.string s)) (t : String) :
    ∃ u, conform field (.string t) = .ok u := by
  have kept := conform_again conformed
  have taken {expected : Expected} (optional : field.required = false) :
      mismatch field t expected = .ok (.string t) := by
    rw [mismatch, optional]
    rfl
  unfold conform at kept ⊢
  cases type : field.type with
  | string | any => exact ⟨.string t, rfl⟩
  | integer | number | boolean =>
    simp only [type] at kept ⊢
    split at kept
    · cases kept
    · have optional := (mismatch_cases kept).2
      split
      · exact ⟨_, rfl⟩
      · exact ⟨_, taken optional⟩

namespace Literal

theorem conform_text_again {field : Field} {raw : String} {v : Value}
    (conformed : conform field (infer raw) = .ok v) :
    conform field (infer (text v)) = .ok v := by
  have signed : v.Signed := by
    refine ⟨Value.scalar_conform (Value.scalar_infer raw) conformed, ?_⟩
    rintro i rfl
    generalize same : infer raw = w at conformed
    cases conforms_of_conform conformed with
    | same => exact (Value.signed_infer raw).2 i same
    | integer _ within => exact within.2
  rw [infer_text (readable_of_signed signed)]
  exact conform_again conformed

theorem conform_text_of_scalar {field : Field} {v w : Value} (scalar : w.Scalar)
    (conformed : conform field v = .ok w) : ∃ u, conform field (infer (text w)) = .ok u := by
  by_cases most : ∀ i, w = .int i → i ≤ maxInt64
  · rw [infer_text (readable_of_signed ⟨scalar, most⟩)]
    exact ⟨w, conform_again conformed⟩
  · simp only [not_forall] at most
    obtain ⟨i, rfl, beyond⟩ := most
    have read : infer (text (.int i)) = .float (Binary64.ofInt i) :=
      infer_unsigned (Int.not_le.mp beyond) scalar.2
    rw [read]
    exact conform_float field _

end Literal

theorem string_of_patternCondition {name : String} {v : Value} {condition : Condition}
    (planned : patternCondition name v = .ok condition) : ∃ s, v = .string s := by
  cases v with
  | string s => exact ⟨s, rfl⟩
  | _ => cases planned

namespace Filter

variable {demand : Comparison → Prop}

theorem Formed.chainFilter {op : Connective} (is : op ≠ .not) {first : Filter}
    {more : List (List Char × Filter)} (formed : Formed demand first)
    (all : ∀ next ∈ more, Formed demand next.2) : Formed demand (chainFilter op first more) := by
  induction more generalizing first with
  | nil => exact formed
  | cons next more ih =>
    exact ih (formed.join is (all next List.mem_cons_self)) fun other member =>
      all other (List.mem_cons_of_mem next member)

theorem operandsOf_apart {op : Connective} {f : Filter} (apart : f.connective? ≠ some op) :
    f.operandsOf op = [f] := by
  cases f with
  | test c => rfl
  | combine inner children =>
    rw [Filter.operandsOf, if_neg fun same => apart (congrArg some same)]

theorem chainFilter_combine {op : Connective} (fs : List Filter)
    {more : List (List Char × Filter)} (apart : ∀ next ∈ more, next.2.connective? ≠ some op) :
    chainFilter op (.combine op fs) more = .combine op (fs ++ more.map Prod.snd) := by
  induction more generalizing fs with
  | nil => rw [List.map_nil, List.append_nil]; rfl
  | cons next more ih =>
    have joined : join op (.combine op fs) next.2 = .combine op (fs ++ [next.2]) := by
      rw [join, Filter.operandsOf, if_pos rfl, operandsOf_apart (apart next List.mem_cons_self)]
    rw [chainFilter, List.foldl_cons, ← chainFilter, joined,
      ih _ fun other member => apart other (List.mem_cons_of_mem next member), List.map_cons,
      List.append_assoc, List.singleton_append]

theorem chainFilter_apart {op : Connective} {first : Filter} {more : List (List Char × Filter)}
    (several : more ≠ []) (alone : first.connective? ≠ some op)
    (apart : ∀ next ∈ more, next.2.connective? ≠ some op) :
    chainFilter op first more = .combine op (first :: more.map Prod.snd) := by
  obtain ⟨next, more, rfl⟩ := List.exists_cons_of_ne_nil several
  have joined : join op first next.2 = .combine op [first, next.2] := by
    rw [join, operandsOf_apart alone, operandsOf_apart (apart next List.mem_cons_self),
      List.singleton_append]
  rw [chainFilter, List.foldl_cons, ← chainFilter, joined,
    chainFilter_combine _ fun other member => apart other (List.mem_cons_of_mem next member)]
  rfl

end Filter

namespace Entity

open StoreGateway.Filter

variable {fields : FieldMap} {scope : Scope} {c : Comparison} {demand : Comparison → Prop}
  {rank : Rank} {text : String}

/-- A comparison as the entity language has it: of a field under its own name, with a literal that the
field takes or with a call. -/
inductive Elementary (fields : FieldMap) : Comparison → Prop
  | value {field : Field} {k : Comparator} {raw : String} {v : Value}
      (resolved : fields.resolve field.name = .ok field) (is : IsField field.name.toList)
      (conformed : conform field (Literal.infer raw) = .ok v) :
      Elementary fields ⟨field.name, .compare k, .literal raw, false⟩
  | call {field : Field} {k : Comparator} {raw : String}
      (resolved : fields.resolve field.name = .ok field) (is : IsField field.name.toList)
      (call : IsCall raw.toList) :
      Elementary fields ⟨field.name, .compare k, .call raw, false⟩

/-- A text that reads as a filter whose comparisons are as demanded. -/
def ReadsInto (demand : Comparison → Prop) (rank : Rank) (text : String) : Prop :=
  ∃ g, Reads [] rank text.toList g ∧ Formed demand g

theorem ReadsInto.toAnd (reads : ReadsInto demand .not text) : ReadsInto demand .and text := by
  obtain ⟨g, reads, formed⟩ := reads
  exact ⟨g, reads.toAnd, formed⟩

theorem ReadsInto.toOr (reads : ReadsInto demand .and text) : ReadsInto demand .or text := by
  obtain ⟨g, reads, formed⟩ := reads
  exact ⟨g, reads.toOr, formed⟩

theorem ReadsInto.group (reads : ReadsInto demand .or text) :
    ReadsInto demand .not ("(" ++ text ++ ")") := by
  obtain ⟨g, reads, formed⟩ := reads
  refine ⟨g, ?_, formed⟩
  rw [toList_group]
  exact reads.group

theorem reads_negated {g : Filter} (reads : Reads [] .or text.toList g) :
    Reads [] .not ("not (" ++ text ++ ")").toList (negate g) := by
  have negated := reads.group.negated (isWord_iff.mp (by decide) : IsWord "not".toList) rfl
  rwa [← toList_negated] at negated

theorem ReadsInto.negated (reads : ReadsInto demand .or text) :
    ReadsInto demand .not ("not (" ++ text ++ ")") := by
  obtain ⟨g, reads, formed⟩ := reads
  exact ⟨negate g, reads_negated reads, .negation formed⟩

theorem readsInto_chain {word : List Char} {op : Connective} {item whole : Rank}
    {rest : Filter → Rank} (separator : String) (links : Links word op item whole rest)
    (is : op ≠ .not) (spaced : separator.toList = ' ' :: (word ++ [' '])) {texts : List String}
    (present : texts ≠ []) (all : ∀ t ∈ texts, ReadsInto demand item t) :
    ReadsInto demand whole (separator.intercalate texts) := by
  obtain ⟨items, rfl, each⟩ := exists_pairs all
  cases items with
  | nil => exact absurd rfl present
  | cons first more =>
    refine ⟨_, links.reads_joined spaced fun i member => (each i member).1,
      (each first List.mem_cons_self).2.chainFilter is fun next member => ?_⟩
    obtain ⟨i, inside, rfl⟩ := List.mem_map.mp member
    exact (each i (List.mem_cons_of_mem first inside)).2

theorem readsInto_all {texts : List String} (present : texts ≠ [])
    (all : ∀ t ∈ texts, ReadsInto demand .not t) :
    ReadsInto demand .or (" and ".intercalate texts) :=
  (readsInto_chain " and " (@links_and "and".toList (by decide) rfl) (by decide) rfl present
    all).toOr

theorem readsInto_any {texts : List String} (present : texts ≠ [])
    (all : ∀ t ∈ texts, ReadsInto demand .not t) :
    ReadsInto demand .or (" or ".intercalate texts) :=
  readsInto_chain " or " (@links_or "or".toList (by decide) rfl) (by decide) rfl present
    fun t member => (all t member).toAnd

/-- What is written for a field reads as an operand that the field takes. -/
def Takes (field : Field) : Coerced → Prop
  | .value v => ∃ u, conform field (Literal.infer (Literal.text v)) = .ok u
  | .native raw => IsCall raw.toList

theorem takes_of_coerce {field : Field} {o : Operand} {x : Coerced}
    (scalars : ∀ m ∈ scope.params, m.2.Scalar) (single : o.IsSingle)
    (coerced : o.coerce scope.params field = .ok x) : Takes field x := by
  cases x with
  | value v =>
    cases Operand.coerces_of_coerce coerced with
    | value _ conformed =>
      exact Literal.conform_text_of_scalar (Operand.scalar_coerce scalars coerced) conformed
  | native raw =>
    cases Operand.coerce_native coerced
    exact single

variable {field : Field}

theorem readsInto_compared (resolved : fields.resolve field.name = .ok field)
    (is : IsField field.name.toList) (k : Comparator) {x : Coerced} (takes : Takes field x) :
    ReadsInto (Elementary fields) .not
      (field.name ++ " " ++ k.entityWord ++ " " ++ operandText x) := by
  cases x with
  | value v =>
    obtain ⟨u, conformed⟩ := takes
    exact ⟨_, reads_compared is k (readsAs_text v), .test (.value resolved is conformed)⟩
  | native raw =>
    have call : IsCall raw.toList := takes
    have readsAs : ReadsAs [] raw.toList _ := call.readsAs
    rw [String.ofList_toList] at readsAs
    exact ⟨_, reads_compared is k readsAs, .test (.call resolved is call)⟩

theorem readsInto_condition {condition : Condition} (table : scope.kind = .table)
    (scalars : ∀ m ∈ scope.params, m.2.Scalar) (formed : c.Formed)
    (resolved : scope.fields.resolve field.name = .ok field) (is : IsField field.name.toList)
    (planned : scope.condition field c.relation c.operand = .ok condition) :
    ReadsInto (Elementary scope.fields) .not (conditionText field.name condition) := by
  rcases c with ⟨name, relation, operand, negated⟩
  have step : scope.Planned field relation operand condition := Scope.planned_of_condition planned
  cases step with
  | @compare k _ x coerced =>
    exact readsInto_compared resolved is k (takes_of_coerce scalars (formed.single rfl rfl) coerced)
  | @oneOf items operands coerced =>
    obtain ⟨present, singles⟩ := formed.items rfl
    obtain ⟨forth, back⟩ := mapM_ok coerced
    refine ReadsInto.group (readsInto_any ?_ fun t member => ?_)
    · obtain ⟨o, others, rfl⟩ := List.exists_cons_of_ne_nil present
      obtain ⟨x, member, -⟩ := forth o List.mem_cons_self
      exact List.ne_nil_of_mem (List.mem_map_of_mem member)
    · obtain ⟨x, inside, rfl⟩ := List.mem_map.mp member
      obtain ⟨o, listed, coerced⟩ := back x inside
      rw [equality_eq]
      exact readsInto_compared resolved is .eq (takes_of_coerce scalars (singles o listed) coerced)
  | @like _ v _ coerced pattern =>
    obtain ⟨s, rfl⟩ := string_of_patternCondition pattern
    have taken (t : String) : ∃ u, conform field (.string t) = .ok u := by
      cases Operand.coerces_of_coerce coerced with
      | value _ conformed => exact conform_text conformed t
    have text (k : Comparator) (t : String) : ReadsInto (Elementary scope.fields) .not
        (field.name ++ " " ++ k.entityWord ++ " " ++ Literal.quote t) := by
      have takes : Takes field (.value (.string t)) := by
        rw [Takes, show Literal.text (.string t) = Literal.quote t from rfl, Literal.infer_quote]
        exact taken t
      have reads := readsInto_compared resolved is k takes
      exact reads
    rcases patternCondition_cases pattern with ⟨t, rfl⟩ | ⟨lower, upper, rfl⟩
    · rw [conditionText, equality_eq]
      exact text .eq t
    · cases upper with
      | none =>
        have atLeast : " ge " = " " ++ Comparator.ge.entityWord ++ " " := rfl
        simp only [conditionText, atLeast, ← String.append_assoc]
        exact text .ge lower
      | some upper =>
        rw [conditionText_between]
        refine ReadsInto.group (readsInto_all (List.cons_ne_nil _ _) fun t member => ?_)
        rcases List.mem_cons.mp member with rfl | member
        · exact text .ge lower
        · rw [List.mem_singleton.mp member]
          exact text .lt upper
  | isNull document => exact absurd document (Scope.not_document table)
  | isNotNull document => exact absurd document (Scope.not_document table)

theorem readsInto_planTest {p : Plan} (table : scope.kind = .table)
    (scalars : ∀ m ∈ scope.params, m.2.Scalar) (formed : c.Formed) (names : NamesField scope c)
    (planned : scope.planTest c = .ok p) :
    ReadsInto (Elementary scope.fields) .not (planText p) := by
  obtain ⟨field, condition, resolved, conditioned, rfl⟩ := Scope.planTest_cases planned
  have again := FieldMap.resolve_again (Scope.resolve_fields.mp resolved)
  have reads := readsInto_condition table scalars formed again
    (isField_of_resolved formed names resolved) conditioned
  rw [planText]
  cases c.negated with
  | false => exact reads
  | true => exact reads.toAnd.toOr.negated

theorem readsInto_plan (table : scope.kind = .table) (scalars : ∀ m ∈ scope.params, m.2.Scalar)
    {f : Filter} (formed : Formed (fun c => c.Formed ∧ NamesField scope c) f) :
    ∀ p, scope.plan f = .ok p → ReadsInto (Elementary scope.fields) .or (planText p) ∧
      ReadsInto (Elementary scope.fields) .not (childText p) := by
  induction formed with
  | test formed =>
    intro p planned
    have reads := readsInto_planTest table scalars formed.1 formed.2 planned
    obtain ⟨field, condition, -, -, rfl⟩ := Scope.planTest_cases planned
    exact ⟨reads.toAnd.toOr, reads⟩
  | negation _ ih =>
    intro p planned
    obtain ⟨q, inner, rfl⟩ := Scope.plan_negation_cases planned
    have reads := (ih q inner).1.negated
    exact ⟨reads.toAnd.toOr, reads⟩
  | @chain op children is present _ ih =>
    intro p planned
    have texts {ps : List Plan} (inner : scope.planAll children = .ok ps) : childTexts ps ≠ [] ∧
        ∀ t ∈ childTexts ps, ReadsInto (Elementary scope.fields) .not t := by
      rw [Scope.planAll_eq_mapM] at inner
      obtain ⟨forth, back⟩ := mapM_ok inner
      rw [childTexts_eq_map]
      refine ⟨?_, fun t member => ?_⟩
      · obtain ⟨f, others, rfl⟩ := List.exists_cons_of_ne_nil present
        obtain ⟨q, member, -⟩ := forth f List.mem_cons_self
        exact List.ne_nil_of_mem (List.mem_map_of_mem member)
      · obtain ⟨q, inside, rfl⟩ := List.mem_map.mp member
        obtain ⟨f, child, planned⟩ := back q inside
        exact (ih f child q planned).2
    cases op with
    | not => exact absurd rfl is
    | and =>
      obtain ⟨ps, inner, rfl⟩ := Scope.plan_all_cases planned
      obtain ⟨present, all⟩ := texts inner
      have reads := readsInto_all present all
      exact ⟨reads, reads.group⟩
    | or =>
      obtain ⟨ps, inner, rfl⟩ := Scope.plan_any_cases planned
      obtain ⟨present, all⟩ := texts inner
      have reads := readsInto_any present all
      exact ⟨reads, reads.group⟩

/-- The text of a plan reads as a filter of the same form as the one planned, with the same plan. -/
structure Recompiles (scope : Scope) (g : Filter) (p : Plan) (h : Filter) : Prop where
  planned : scope.plan g = .ok p
  again : scope.plan h = .ok p
  form : h.connective? = g.connective?
  reads : Reads [] .or (planText p).toList h
  child : Reads [] .not (childText p).toList h

theorem reads_chain {word : List Char} {op : Connective} {item whole : Rank} {rest : Filter → Rank}
    (separator : String) (links : Links word op item whole rest)
    (spaced : separator.toList = ' ' :: (word ++ [' '])) {items : List (String × Filter)}
    (several : 2 ≤ items.length) (apart : ∀ i ∈ items, i.2.connective? ≠ some op)
    (all : ∀ i ∈ items, Reads [] item i.1.toList i.2) :
    Reads [] whole (separator.intercalate (items.map Prod.fst)).toList
      (.combine op (items.map Prod.snd)) := by
  cases items with
  | nil => cases several
  | cons first others =>
    have present : others ≠ [] := by
      rintro rfl
      exact absurd several (by simp)
    have reads := links.reads_joined spaced all
    rw [chainFilter_apart (by simpa using present) (apart first List.mem_cons_self), List.map_map]
      at reads
    · exact reads
    · intro next member
      obtain ⟨i, inside, rfl⟩ := List.mem_map.mp member
      exact apart i (List.mem_cons_of_mem first inside)

theorem reads_all {items : List (String × Filter)} (several : 2 ≤ items.length)
    (apart : ∀ i ∈ items, i.2.connective? ≠ some .and)
    (all : ∀ i ∈ items, Reads [] .not i.1.toList i.2) :
    Reads [] .or (" and ".intercalate (items.map Prod.fst)).toList
      (.combine .and (items.map Prod.snd)) :=
  (reads_chain " and " (@links_and "and".toList (by decide) rfl) rfl several apart all).toOr

theorem reads_any {items : List (String × Filter)} (several : 2 ≤ items.length)
    (apart : ∀ i ∈ items, i.2.connective? ≠ some .or)
    (all : ∀ i ∈ items, Reads [] .not i.1.toList i.2) :
    Reads [] .or (" or ".intercalate (items.map Prod.fst)).toList
      (.combine .or (items.map Prod.snd)) :=
  reads_chain " or " (@links_or "or".toList (by decide) rfl) rfl several apart fun i member =>
    (all i member).toAnd

theorem plan_value {k : Comparator} {raw : String} {v : Value}
    (resolved : scope.fields.resolve field.name = .ok field)
    (conformed : conform field (Literal.infer raw) = .ok v) :
    scope.plan (.test ⟨field.name, .compare k, .literal raw, false⟩) =
      .ok (.test field.name (.compare k (.value v)) false) := by
  rw [Scope.plan, Scope.planTest, Scope.resolve_fields.mpr resolved]
  simp only [Scope.condition, Operand.coerce, Operand.value?, bind, Except.bind, conformed]
  rfl

theorem plan_call {k : Comparator} {raw : String}
    (resolved : scope.fields.resolve field.name = .ok field) :
    scope.plan (.test ⟨field.name, .compare k, .call raw, false⟩) =
      .ok (.test field.name (.compare k (.native raw)) false) := by
  rw [Scope.plan, Scope.planTest, Scope.resolve_fields.mpr resolved]
  rfl

theorem recompiles_elementary (elementary : Elementary scope.fields c) :
    ∃ p h, Recompiles scope (.test c) p h := by
  cases elementary with
  | @value field k raw v resolved is conformed =>
    have reads := reads_compared is k (readsAs_text v)
    exact ⟨_, _, plan_value resolved conformed,
      plan_value resolved (Literal.conform_text_again conformed), rfl, reads.toAnd.toOr, reads⟩
  | @call field k raw resolved is call =>
    have readsAs : ReadsAs [] raw.toList _ := call.readsAs
    rw [String.ofList_toList] at readsAs
    have reads := reads_compared is k readsAs
    exact ⟨_, _, plan_call resolved, plan_call resolved, rfl, reads.toAnd.toOr, reads⟩

theorem recompiles_negation {g h : Filter} {p : Plan} (inner : Recompiles scope g p h) :
    Recompiles scope (.combine .not [g]) (.negate p) (negate h) := by
  have reads := reads_negated inner.reads
  have negated {f : Filter} (planned : scope.plan f = .ok p) :
      scope.plan (.combine .not [f]) = .ok (.negate p) := by
    rw [Scope.plan, planned]
    rfl
  exact ⟨negated inner.planned, negated inner.again, rfl, reads.toAnd.toOr, reads⟩

/-- The children of a chain are no chains of its connective, so none is joined with its siblings when
what they are written as is read. -/
theorem recompiles_chain {op : Connective} (is : op ≠ .not)
    {triples : List (Filter × Plan × Filter)} (several : 2 ≤ triples.length)
    (apart : ∀ t ∈ triples, t.1.connective? ≠ some op)
    (each : ∀ t ∈ triples, Recompiles scope t.1 t.2.1 t.2.2) :
    ∃ p h, Recompiles scope (.combine op (triples.map Prod.fst)) p h := by
  let ps := triples.map fun t => t.2.1
  let hs := triples.map fun t => t.2.2
  have planned : scope.planAll (triples.map Prod.fst) = .ok ps := by
    rw [Scope.planAll_eq_mapM]
    exact mapM_map_ok fun t member => (each t member).planned
  have again : scope.planAll hs = .ok ps := by
    rw [Scope.planAll_eq_mapM]
    exact mapM_map_ok fun t member => (each t member).again
  let items := triples.map fun t => (childText t.2.1, t.2.2)
  have texts : items.map Prod.fst = childTexts ps := by
    rw [childTexts_eq_map, List.map_map, List.map_map]
    rfl
  have filters : items.map Prod.snd = hs := List.map_map
  have long : 2 ≤ items.length := by rwa [List.length_map]
  have bare : ∀ i ∈ items, i.2.connective? ≠ some op := by
    intro i member
    obtain ⟨t, inside, rfl⟩ := List.mem_map.mp member
    change t.2.2.connective? ≠ some op
    rw [(each t inside).form]
    exact apart t inside
  have reads : ∀ i ∈ items, Reads [] .not i.1.toList i.2 := by
    intro i member
    obtain ⟨t, inside, rfl⟩ := List.mem_map.mp member
    exact (each t inside).child
  have grouped {text : String} {h : Filter} (reads : Reads [] .or text.toList h) :
      Reads [] .not ("(" ++ text ++ ")").toList h := by
    rw [toList_group]
    exact reads.group
  cases op with
  | not => exact absurd rfl is
  | and =>
    have chain := reads_all long bare reads
    rw [texts, filters] at chain
    exact ⟨.all ps, .combine .and hs, by rw [Scope.plan, planned]; rfl,
      by rw [Scope.plan, again]; rfl, rfl, chain, grouped chain⟩
  | or =>
    have chain := reads_any long bare reads
    rw [texts, filters] at chain
    exact ⟨.any ps, .combine .or hs, by rw [Scope.plan, planned]; rfl,
      by rw [Scope.plan, again]; rfl, rfl, chain, grouped chain⟩

theorem exists_recompiles {g : Filter} (normal : Normal (Elementary scope.fields) g) :
    ∃ p h, Recompiles scope g p h := by
  induction normal with
  | test elementary => exact recompiles_elementary elementary
  | negation _ ih =>
    obtain ⟨p, h, inner⟩ := ih
    exact ⟨.negate p, negate h, recompiles_negation inner⟩
  | @chain op children is several apart _ ih =>
    obtain ⟨triples, rfl, each⟩ := @exists_pairs Filter (Plan × Filter)
      (fun g r => Recompiles scope g r.1 r.2) children fun g member => by
        obtain ⟨p, h, inner⟩ := ih g member
        exact ⟨(p, h), inner⟩
    rw [List.length_map] at several
    exact recompiles_chain is several (fun t member => apart t.1 (List.mem_map_of_mem member)) each

/-- Compiling reaches a fixed point after one step: the text that a filter over scalars is compiled to is
read and compiled over the same fields to a text that is read and compiled to itself, unless a field
is written as a word of negation. -/
theorem recompiled_once {params : Params} {maxIds : Nat} (scalars : ∀ m ∈ params, m.2.Scalar)
    {text : String} {f : Filter} (parsed : Filter.parse params text = .ok (some f))
    (names : ∀ c ∈ f.comparisons, NamesField ⟨.table, fields, params⟩ c) {first : CompiledFilter}
    (compiled : (Compiler.mk fields params maxIds).compile f = .ok first) :
    ∃ g second h, Filter.parse [] first.text = .ok (some g) ∧
      (Compiler.mk fields [] maxIds).compile g = .ok second ∧
      Filter.parse [] second.text = .ok (some h) ∧
      (Compiler.mk fields [] maxIds).compile h = .ok second := by
  obtain ⟨p, planned, rfl⟩ := Compiler.plan_of_compile compiled
  obtain ⟨g, reads, elementary⟩ :=
    (readsInto_plan rfl scalars ((formed_of_parse parsed).and names) p planned).1
  have parses : Filter.parse [] (planText p) = .ok (some g) := by
    rw [← reads.parse, String.ofList_toList]
  have normal : Normal (Elementary fields) g :=
    ((normal_of_parse parses).and elementary.each).imp fun _ both => both.2
  let scope : Scope := ⟨.table, fields, []⟩
  obtain ⟨q, h, again⟩ : ∃ q h, Recompiles scope g q h := exists_recompiles normal
  have written {k : Filter} (planned : scope.plan k = .ok q) :
      (Compiler.mk fields [] maxIds).compile k = .ok ⟨planText q, []⟩ := by
    rw [Compiler.compile, show (Compiler.mk fields [] maxIds).scope.plan k = .ok q from planned]
    rfl
  refine ⟨g, ⟨planText q, []⟩, h, parses, written again.planned, ?_, written again.again⟩
  rw [← again.reads.parse, String.ofList_toList]

/-- A list and a pattern inside chains, whose parentheses go, and a whole number that is read as the
nearest one of the format. -/
theorem recompiled_once_of_nested :
    let compiler : Compiler := ⟨FieldMap.openFor .table, [], 14⟩
    ∃ g second h, Filter.parse []
        "(a eq 1 or a eq 'x') or n gt 18446744073709551615 or ((b ge 'y' and b lt 'z') and c ne null)" =
          .ok (some g) ∧
      compiler.compile g = .ok second ∧ Filter.parse [] second.text = .ok (some h) ∧
      compiler.compile h = .ok second := by
  have parsed : Filter.parse [("m", .int 18446744073709551615)]
      "a in (1, 'x') or n > :m or b like 'y%' and c <> null" =
      .ok (some (.combine .or [.test ⟨"a", .oneOf, .list [.literal "1", .literal "'x'"], false⟩,
        .test ⟨"n", .compare .gt, .param "m", false⟩,
        .combine .and [.test ⟨"b", .like, .literal "'y%'", false⟩,
          .test ⟨"c", .compare .ne, .literal "null", false⟩]])) := by
    decide +kernel
  have scalars : ∀ m ∈ [("m", Value.int 18446744073709551615)], m.2.Scalar := by
    intro m member
    cases List.mem_singleton.mp member
    exact ⟨by decide, by decide⟩
  have other : ¬ Filter.Negates (.combine .or
      [.test ⟨"a", .oneOf, .list [.literal "1", .literal "'x'"], false⟩,
        .test ⟨"n", .compare .gt, .param "m", false⟩,
        .combine .and [.test ⟨"b", .like, .literal "'y%'", false⟩,
          .test ⟨"c", .compare .ne, .literal "null", false⟩]]) := by
    decide
  have compiled : (Compiler.mk (FieldMap.openFor .table) [("m", .int 18446744073709551615)] 14).compile
      (.combine .or [.test ⟨"a", .oneOf, .list [.literal "1", .literal "'x'"], false⟩,
        .test ⟨"n", .compare .gt, .param "m", false⟩,
        .combine .and [.test ⟨"b", .like, .literal "'y%'", false⟩,
          .test ⟨"c", .compare .ne, .literal "null", false⟩]]) =
      .ok ⟨"(a eq 1 or a eq 'x') or n gt 18446744073709551615 or ((b ge 'y' and b lt 'z') and c ne null)",
        []⟩ :=
    rfl
  have fixed := recompiled_once scalars parsed
    (fun c member => namesField_of_other fun negates => other ⟨c, member, negates⟩) compiled
  exact fixed

end Entity

end StoreGateway

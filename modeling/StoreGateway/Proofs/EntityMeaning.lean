import StoreGateway.Compile.Entity
import StoreGateway.Proofs.Coerced
import StoreGateway.Proofs.Equality

/-! The entity table's filter texts read back as filters with the meaning of those compiled. -/

namespace StoreGateway.Entity

open StoreGateway.Filter

/-- A comparison that the entity language has words for: values with a literal that reads back, no
null in a list, and no field that reads as a negation. -/
structure Writable (scope : Scope) (c : Comparison) : Prop where
  no_call : ∀ o ∈ c.operand.singles, ∀ raw, o ≠ .call raw
  readable : ∀ field, scope.resolve c.field = .ok field → ∀ o ∈ c.operand.singles, ∀ v,
    o.coerce scope.params field = .ok (.value v) → Literal.Readable v
  no_null : c.relation = .oneOf → ∀ field, scope.resolve c.field = .ok field →
    ∀ o ∈ c.operand.singles, ∀ v, o.coerce scope.params field = .ok (.value v) → v.isNull = false
  not_not : ∀ field, scope.resolve c.field = .ok field → Text.asciiLower field.name ≠ "not"

/-- A value whose literal is read as one that compares as it does. -/
def Legible (v : Value) : Prop :=
  ∀ (c : Comparator) (actual : Option Value),
    c.holds actual (Literal.infer (Literal.text v)) = c.holds actual v

theorem legible_of_readable {v : Value} (readable : Literal.Readable v) : Legible v :=
  fun c actual => by rw [Literal.infer_text readable]

/-- A comparison that the entity language has words for, though it writes a list as a chain of
equalities: values whose literals compare as they do, and no field that reads as a negation. -/
structure Expressible (scope : Scope) (c : Comparison) : Prop where
  no_call : ∀ o ∈ c.operand.singles, ∀ raw, o ≠ .call raw
  legible : ∀ field, scope.resolve c.field = .ok field → ∀ o ∈ c.operand.singles, ∀ v,
    o.coerce scope.params field = .ok (.value v) → Legible v
  not_not : ∀ field, scope.resolve c.field = .ok field → Text.asciiLower field.name ≠ "not"

theorem Writable.expressible {scope : Scope} {c : Comparison} (writable : Writable scope c) :
    Expressible scope c where
  no_call := writable.no_call
  legible field resolved o member v coerced :=
    legible_of_readable (writable.readable field resolved o member v coerced)
  not_not := writable.not_not

theorem writable_of_values {scope : Scope} {c : Comparison} {field : Field}
    (resolved : scope.resolve c.field = .ok field) (not_not : Text.asciiLower field.name ≠ "not")
    (values : ∀ o ∈ c.operand.singles, ∃ v, o.coerce scope.params field = .ok (.value v) ∧
      Literal.Readable v ∧ v.isNull = false) : Writable scope c := by
  have unique (other : Field) (found : scope.resolve c.field = .ok other) : other = field := by
    rw [resolved] at found
    exact (Except.ok.inj found).symm
  refine ⟨fun o member raw call => ?_, fun other found o member v coerced => ?_,
    fun _ other found o member v coerced => ?_, fun other found => ?_⟩
  · obtain ⟨v, coerced, -⟩ := values o member
    rw [call] at coerced
    cases coerced
  · obtain ⟨w, here, readable, -⟩ := values o member
    rw [unique other found, here] at coerced
    cases coerced
    exact readable
  · obtain ⟨w, here, -, not_null⟩ := values o member
    rw [unique other found, here] at coerced
    cases coerced
    exact not_null
  · rw [unique other found]
    exact not_not

variable {name : String}

theorem reads_compared (is : IsField name.toList) (k : Comparator) {text : String} {o : Operand}
    (readsAs : ReadsAs [] text.toList o) :
    Reads [] .not (name ++ " " ++ k.entityWord ++ " " ++ text).toList
      (.test ⟨name, .compare k, o, false⟩) := by
  have reads := reads_single is (relates_entityWord k) readsAs rfl rfl
  have same : (name ++ " " ++ k.entityWord ++ " " ++ text).toList =
      name.toList ++ ' ' :: (k.entityWord.toList ++ ' ' :: text.toList) := by simp
  rw [same]
  rwa [String.ofList_toList] at reads

theorem means_operand (is : IsField name.toList) (c : Comparator) {text : String} {o : Operand}
    (readsAs : ReadsAs [] text.toList o) :
    Means [] none .not (name ++ " " ++ c.entityWord ++ " " ++ text)
      fun r => (o.evaluate []).map (c.holds (r.present? name)) := by
  refine ⟨_, reads_compared is c readsAs, fun r => ?_⟩
  rw [holdsBy, Comparison.holds]
  cases o.evaluate [] with
  | error fault => rfl
  | ok v => exact congrArg Except.ok (Bool.bne_false _)

theorem means_comparison (is : IsField name.toList) (c : Comparator) {raw : String} {v : Value}
    (readsAs : ReadsAs [] raw.toList (.literal raw)) (value : Literal.infer raw = v) :
    Means [] none .not (name ++ " " ++ c.entityWord ++ " " ++ raw)
      fun r => .ok (c.holds (r.present? name) v) := by
  rw [← value]
  exact means_operand is c readsAs

theorem means_value (is : IsField name.toList) (c : Comparator) {v : Value} (legible : Legible v) :
    Means [] none .not (name ++ " " ++ c.entityWord ++ " " ++ Literal.text v)
      fun r => .ok (c.holds (r.present? name) v) := by
  have means := means_comparison is c (readsAs_text v) rfl
  simp only [legible c] at means
  exact means

theorem means_quote (is : IsField name.toList) (c : Comparator) (text : String) :
    Means [] none .not (name ++ " " ++ c.entityWord ++ " " ++ Literal.quote text)
      fun r => .ok (c.holds (r.present? name) (.string text)) :=
  means_comparison is c (readsAs_quote text) (Literal.infer_quote text)

/-- The value that is looked for and the one that is there are not both null. A null equals one that
is missing, but is not found in a list of one. -/
def Contrasts (actual : Option Value) (v : Value) : Prop :=
  v.isNull = false ∨ ∃ a, actual = some a ∧ a.isNull = false

theorem equality_holds {v : Value} {actual : Option Value} (contrasts : Contrasts actual v) :
    Comparator.eq.holds actual v = actual.any fun a => a.equals v := by
  rcases contrasts with value | ⟨a, rfl, value⟩
  · cases v with
    | null => cases value
    | _ => cases actual <;> rfl
  · cases v with
    | null =>
      cases a with
      | null => cases value
      | _ => rfl
    | _ => rfl

theorem equality_eq (name operand : String) :
    equality name operand = name ++ " " ++ Comparator.eq.entityWord ++ " " ++ operand := by
  have words : " eq " = " " ++ Comparator.eq.entityWord ++ " " := rfl
  rw [equality, words, ← String.append_assoc, ← String.append_assoc]

theorem any_equalities {values : List Value} {actual : Option Value}
    (contrast : ∀ v ∈ values, Contrasts actual v) :
    (values.map fun v => Comparator.eq.holds actual v).any id =
      Relation.oneOf.holds actual (.array values) := by
  have each : values.map (fun v => Comparator.eq.holds actual v) =
      values.map fun v => actual.any fun a => a.equals v :=
    List.map_congr_left fun v member => equality_holds (contrast v member)
  rw [each]
  cases actual with
  | none => simp [Relation.holds]
  | some a => rw [List.any_map]; rfl

/-- What the text of a comparison says of a field's value: a list is a chain of equalities. -/
def holdsChained (relation : Relation) (actual : Option Value) (expected : Value) : Bool :=
  match relation, expected with
  | .oneOf, .array values => (values.map fun v => Comparator.eq.holds actual v).any id
  | relation, expected => relation.holdsCoerced actual expected

theorem holdsChained_eq {relation : Relation} {actual : Option Value} {expected : Value}
    (contrast : relation = .oneOf → ∀ values, expected = .array values →
      ∀ v ∈ values, Contrasts actual v) :
    holdsChained relation actual expected = relation.holdsCoerced actual expected := by
  unfold holdsChained
  split
  · next values => exact any_equalities (contrast rfl values rfl)
  · rfl

theorem means_oneOf (is : IsField name.toList) {values : List Value} (present : values ≠ [])
    (legible : ∀ v ∈ values, Legible v) :
    Means [] none .not
      ("(" ++ " or ".intercalate (values.map fun v => equality name (Literal.text v)) ++ ")")
      fun r => .ok (holdsChained .oneOf (r.present? name) (.array values)) := by
  let items : List Phrase := values.map fun v =>
    (equality name (Literal.text v), fun r => .ok (Comparator.eq.holds (r.present? name) v))
  have all : ∀ item ∈ items, Means [] none .and item.1 item.2 := by
    intro item member
    obtain ⟨v, inside, rfl⟩ := List.mem_map.mp member
    rw [equality_eq]
    exact (means_value is .eq (legible v inside)).toAnd
  have chain := means_chain_or "or" " or " (by decide) rfl rfl items
    (by simpa [items] using present) all
  have texts : items.map Prod.fst = values.map fun v => equality name (Literal.text v) := by
    simp [items]
  have meaning (r : Record) : anyOf (items.map fun item => item.2 r) =
      .ok (holdsChained .oneOf (r.present? name) (.array values)) := by
    have outcomes : items.map (fun item => item.2 r) =
        (values.map fun v => Comparator.eq.holds (r.present? name) v).map .ok := by
      simp [items]
    rw [outcomes, anyOf_ok]
    rfl
  rw [texts] at chain
  simp only [meaning] at chain
  exact chain.group

theorem conditionText_between (lower upper : String) :
    conditionText name (.between lower (some upper)) =
      "(" ++ " and ".intercalate [name ++ " " ++ Comparator.ge.entityWord ++ " " ++
        Literal.quote lower, name ++ " " ++ Comparator.lt.entityWord ++ " " ++
        Literal.quote upper] ++ ")" := by
  apply String.toList_inj.mp
  simp [conditionText, Comparator.entityWord]

theorem means_between (is : IsField name.toList) (lower : String) (upper : Option String) :
    Means [] none .not (conditionText name (.between lower upper)) fun r =>
      .ok (Comparator.ge.holds (r.present? name) (.string lower) &&
        upper.all fun bound => Comparator.lt.holds (r.present? name) (.string bound)) := by
  have low := means_quote is .ge lower
  have atLeast : " ge " = " " ++ Comparator.ge.entityWord ++ " " := rfl
  cases upper with
  | none =>
    simp only [conditionText, atLeast, ← String.append_assoc, Option.all_none, Bool.and_true]
    exact low
  | some upper =>
    have high := means_quote is .lt upper
    have chain := means_chain_and "and" " and " (by decide) rfl rfl [(_, _), (_, _)]
      (by simp) (by
        intro item member
        rcases List.mem_cons.mp member with rfl | member
        · exact low
        · rw [List.mem_singleton.mp member]; exact high)
    have meaning (a b : Bool) : allOf [.ok a, .ok b] = .ok (a && b) := by
      cases a <;> cases b <;> rfl
    rw [conditionText_between]
    simp only [List.map_cons, List.map_nil, meaning] at chain
    exact chain.toOr.group

theorem means_exactly (is : IsField name.toList) (text : String) :
    Means [] none .not (conditionText name (.exactly text)) fun r =>
      .ok (Comparator.eq.holds (r.present? name) (.string text)) := by
  rw [conditionText, equality_eq]
  exact means_quote is .eq text

/-- A condition with the `not` that may stand before it. -/
theorem means_test {condition : Condition} {meaning : Record → Except EvalFault Bool}
    (negated : Bool) (means : Means [] none .not (conditionText name condition) meaning) :
    Means [] none .not (planText (.test name condition negated)) fun r =>
      (meaning r).map (· != negated) := by
  cases negated with
  | false =>
    have same (outcome : Except EvalFault Bool) : outcome.map (· != false) = outcome := by
      cases outcome <;> simp [Except.map]
    simp only [planText, Bool.false_eq_true, if_false, same]
    exact means
  | true =>
    simp only [planText, if_true, Bool.bne_true]
    exact means.toAnd.toOr.negated "not" (by decide) rfl

variable {scope : Scope} {c : Comparison}

theorem coerceAll {field : Field} {items : List Operand} {operands : List Coerced}
    (no_call : ∀ o ∈ items, ∀ raw, o ≠ .call raw) (single : ∀ o ∈ items, o.IsSingle)
    (coerced : items.mapM (Operand.coerce scope.params field) = .ok operands) :
    ∃ values, operands = values.map .value ∧
      Operand.coercedValues scope.params field items = .ok values ∧ values.length = items.length ∧
      ∀ v ∈ values, ∃ o ∈ items, o.coerce scope.params field = .ok (.value v) := by
  induction items generalizing operands with
  | nil =>
    cases coerced
    exact ⟨[], rfl, rfl, rfl, nofun⟩
  | cons o items ih =>
    obtain ⟨x, others, first, rest, rfl⟩ := mapM_cons_ok coerced
    obtain ⟨values, rfl, all, length, each⟩ :=
      ih (fun o member => no_call o (List.mem_cons_of_mem _ member))
        (fun o member => single o (List.mem_cons_of_mem _ member)) rest
    rcases Operand.coerce_single (single o List.mem_cons_self) first with
      ⟨v, rfl, value⟩ | ⟨raw, call, -⟩
    · refine ⟨v :: values, rfl, ?_, by simp [length], fun w member => ?_⟩
      · rw [Operand.coercedValues, value, all]
        rfl
      · rcases List.mem_cons.mp member with rfl | member
        · exact ⟨o, List.mem_cons_self, first⟩
        · obtain ⟨o', inside, here⟩ := each w member
          exact ⟨o', List.mem_cons_of_mem _ inside, here⟩
    · exact absurd call (no_call o List.mem_cons_self raw)

/-- The text of a condition means what the comparison it is planned for does with coerced values, but
for a list, which is a chain of equalities with the values of its operands. -/
theorem means_condition {field : Field} {condition : Condition} (table : scope.kind = .table)
    (formed : c.Formed) (expressible : Expressible scope c)
    (resolved : scope.resolve c.field = .ok field)
    (planned : scope.condition field c.relation c.operand = .ok condition) :
    ∃ expected, c.operand.coerced scope.params field = .ok expected ∧
      (c.relation = .oneOf → ∀ values, expected = .array values → ∀ v ∈ values,
        ∃ o ∈ c.operand.singles, o.coerce scope.params field = .ok (.value v)) ∧
      Means [] none .not (conditionText field.name condition) fun r =>
        .ok (holdsChained c.relation (r.present? field.name) expected) := by
  have is : IsField field.name.toList :=
    ⟨Scope.resolve_isWord resolved formed.field, by
      rw [String.ofList_toList]
      exact expressible.not_not field resolved⟩
  rcases c with ⟨name, relation, operand, negated⟩
  have step : scope.Planned field relation operand condition := Scope.planned_of_condition planned
  cases step with
  | @compare k _ x coerced =>
    have single := formed.single rfl rfl
    obtain ⟨alone, singles⟩ := Operand.coerced_of_single scope.params field single
    rcases Operand.coerce_single single coerced with ⟨v, rfl, value⟩ | ⟨raw, call, -⟩
    · refine ⟨v, alone.trans value, (fun listed => by cases listed), ?_⟩
      have legible := expressible.legible field resolved operand (by rw [singles]; simp) v coerced
      exact means_value is k legible
    · exact absurd call (expressible.no_call operand (by rw [singles]; simp) raw)
  | @oneOf items operands coerced =>
    obtain ⟨some, all⟩ := formed.items rfl
    have no_call : ∀ o ∈ items, ∀ raw, o ≠ .call raw := expressible.no_call
    obtain ⟨values, rfl, evaluated, length, each⟩ := coerceAll no_call all coerced
    refine ⟨.array values, by simp only [Operand.coerced, evaluated]; rfl, ?_, ?_⟩
    · intro _ others same
      cases same
      exact each
    have texts : (values.map Coerced.value).map (fun o => equality field.name (operandText o)) =
        values.map fun v => equality field.name (Literal.text v) := by
      rw [List.map_map]; rfl
    have means := means_oneOf is (ne_nil_of_length some length) fun v member => by
      obtain ⟨o, inside, here⟩ := each v member
      exact expressible.legible field resolved o inside v here
    rw [← texts] at means
    exact means
  | @like _ v _ coerced pattern =>
    have value : operand.coercedValue scope.params field = .ok v := by
      rw [Operand.coercedValue, coerced]
    have alone := (Operand.coerced_of_single scope.params field (formed.single rfl rfl)).1
    have unnamed := patternCondition_name pattern ""
    refine ⟨v, alone.trans value, (fun listed => by cases listed), ?_⟩
    rcases patternCondition_cases pattern with ⟨text, rfl⟩ | ⟨lower, upper, rfl⟩
    · simp only [holdsChained, Relation.holdsCoerced, patternHolds, unnamed]
      exact means_exactly is text
    · simp only [holdsChained, Relation.holdsCoerced, patternHolds, unnamed]
      exact means_between is lower upper
  | isNull document => exact absurd document (Scope.not_document table)
  | isNotNull document => exact absurd document (Scope.not_document table)

/-- No null is listed for a field that the record has no value of. -/
def ListsContrast (scope : Scope) (r : Record) (c : Comparison) : Prop :=
  c.relation = .oneOf → ∀ field, scope.resolve c.field = .ok field →
    ∀ o ∈ c.operand.singles, ∀ v, o.coerce scope.params field = .ok (.value v) →
      Contrasts (r.present? field.name) v

/-- The text of a planned comparison has a meaning, which on a record is that of the comparison if no
list has a null where the field has none. -/
theorem exists_means_planTest {p : Plan} (table : scope.kind = .table) (formed : c.Formed)
    (expressible : Expressible scope c) (planned : scope.planTest c = .ok p) :
    ∃ meaning, Means [] none .not (planText p) meaning ∧
      ∀ r, ListsContrast scope r c → meaning r = scope.testHolds r c := by
  obtain ⟨field, condition, resolved, conditioned, rfl⟩ := Scope.planTest_cases planned
  obtain ⟨expected, coerced, values, means⟩ :=
    means_condition table formed expressible resolved conditioned
  refine ⟨_, means_test c.negated means, fun r contrast => ?_⟩
  have chained : holdsChained c.relation (r.present? field.name) expected =
      c.relation.holdsCoerced (r.present? field.name) expected := by
    refine holdsChained_eq fun list others same v member => ?_
    obtain ⟨o, inside, here⟩ := values list others same v member
    exact contrast list field resolved o inside v here
  simp only [Scope.testHolds_of_resolved resolved, coerced, chained]
  rfl

theorem means_planTest {p : Plan} (table : scope.kind = .table) (formed : c.Formed)
    (writable : Writable scope c) (planned : scope.planTest c = .ok p) :
    Means [] none .not (planText p) fun r => scope.testHolds r c := by
  obtain ⟨meaning, means, same⟩ :=
    exists_means_planTest table formed writable.expressible planned
  have all : meaning = fun r => scope.testHolds r c := funext fun r =>
    same r fun list field resolved o member v coerced =>
      .inl (writable.no_null list field resolved o member v coerced)
  rwa [all] at means

def childText (p : Plan) : String := if p.isChain then "(" ++ planText p ++ ")" else planText p

theorem childTexts_eq_map (ps : List Plan) : childTexts ps = ps.map childText := by
  induction ps with
  | nil => rfl
  | cons p ps ih => rw [childTexts, ih]; rfl

-- What the text of a comparison is to say of a record.
variable {meaning : Record → Comparison → Except EvalFault Bool}

theorem means_children {fs : List Filter} {ps : List Plan}
    (each : ∀ f ∈ fs, ∀ p, scope.plan f = .ok p →
      Stands [] none p.isChain (planText p) fun r => f.holdsBy (meaning r))
    (planned : scope.planAll fs = .ok ps) :
    ∃ items : List Phrase, items.map Prod.fst = childTexts ps ∧ items.length = fs.length ∧
      (∀ item ∈ items, Means [] none .not item.1 item.2) ∧
      ∀ r, items.map (fun item => item.2 r) = fs.map (holdsBy (meaning r)) := by
  induction fs generalizing ps with
  | nil =>
    cases planned
    exact ⟨[], rfl, rfl, nofun, fun r => rfl⟩
  | cons f fs ih =>
    obtain ⟨p, others, first, rest, rfl⟩ := Scope.planAll_cons_cases planned
    obtain ⟨items, texts, length, all, meanings⟩ :=
      ih (fun g member => each g (List.mem_cons_of_mem f member)) rest
    have stands := each f List.mem_cons_self p first
    refine ⟨(if p.isChain then "(" ++ planText p ++ ")" else planText p,
      fun r => f.holdsBy (meaning r)) :: items, ?_, ?_, ?_, fun r => ?_⟩
    · rw [List.map_cons, childTexts, texts]
    · rw [List.length_cons, List.length_cons, length]
    · intro item member
      rcases List.mem_cons.mp member with rfl | member
      · exact stands.child
      · exact all item member
    · rw [List.map_cons, List.map_cons, meanings r]

/-- A filter's text means what the texts of its comparisons do. -/
theorem stands_tests {f : Filter} (formed : Formed (fun c => ∀ p, scope.planTest c = .ok p →
      Means [] none .not (planText p) fun r => meaning r c) f) :
    ∀ p, scope.plan f = .ok p →
      Stands [] none p.isChain (planText p) fun r => f.holdsBy (meaning r) := by
  induction formed with
  | @test c formed =>
    intro p planned
    exact (formed p planned).stands
  | @negation f _ ih =>
    intro p planned
    obtain ⟨q, inner, rfl⟩ := Scope.plan_negation_cases planned
    have means := (ih q inner).1.negated "not" (by decide) rfl
    simp only [← holdsBy_negate] at means
    exact means.stands
  | @chain op children is present _ ih =>
    intro p planned
    cases op with
    | not => exact absurd rfl is
    | and =>
      obtain ⟨ps, inner, rfl⟩ := Scope.plan_all_cases planned
      obtain ⟨items, texts, length, all, meanings⟩ := means_children ih inner
      have means := means_chain_and "and" " and " (by decide) rfl rfl items
        (ne_nil_of_length present length) all
      simp only [texts, meanings, ← allHoldBy_eq_allOf] at means
      exact ⟨means.toOr, nofun⟩
    | or =>
      obtain ⟨ps, inner, rfl⟩ := Scope.plan_any_cases planned
      obtain ⟨items, texts, length, all, meanings⟩ := means_children ih inner
      have means := means_chain_or "or" " or " (by decide) rfl rfl items
        (ne_nil_of_length present length) fun item member => (all item member).toAnd
      simp only [texts, meanings, ← anyHoldsBy_eq_anyOf] at means
      exact ⟨means, nofun⟩

theorem stands_plan (table : scope.kind = .table) {f : Filter}
    (formed : Formed (fun c => c.Formed ∧ Writable scope c) f) :
    ∀ p, scope.plan f = .ok p →
      Stands [] none p.isChain (planText p) fun r => f.holdsBy (scope.testHolds r) :=
  stands_tests (formed.imp fun _ demand _ planned =>
    means_planTest table demand.1 demand.2 planned)

theorem Compiler.plan_of_compile {compiler : Compiler} {f : Filter} {native : CompiledFilter}
    (compiled : compiler.compile f = .ok native) :
    ∃ p, compiler.scope.plan f = .ok p ∧ native = ⟨planText p, []⟩ := by
  unfold Compiler.compile at compiled
  cases planned : compiler.scope.plan f with
  | error fault =>
    rw [planned] at compiled
    cases compiled
  | ok p =>
    rw [planned] at compiled
    cases compiled
    exact ⟨p, rfl, rfl⟩

/-- Compiling for the entity table keeps the meaning: the native text is a filter again, and on every
record it holds exactly when the filter compiled holds with fields resolved and values coerced. -/
theorem compiled_filter_meaning (compiler : Compiler) {text : String} {f : Filter}
    {native : CompiledFilter} (parsed : Filter.parse compiler.params text = .ok (some f))
    (compiled : compiler.compile f = .ok native)
    (writable : ∀ c ∈ f.comparisons, Writable compiler.scope c) :
    ∃ g, Filter.parse [] native.text = .ok (some g) ∧
      ∀ r, ∃ b, g.holds [] none r = .ok b ∧ f.holdsBy (compiler.scope.testHolds r) = .ok b := by
  have formed := (formed_of_parse parsed).and writable
  obtain ⟨p, planned, rfl⟩ := Compiler.plan_of_compile compiled
  obtain ⟨g, parses, holds⟩ := (stands_plan rfl formed p planned).1.parse
  refine ⟨g, parses, fun r => ?_⟩
  obtain ⟨b, evaluates⟩ := formed.holdsBy_ok fun c demand =>
    Scope.testHolds_ok compiler.scope r demand.2.no_call
  exact ⟨b, (holds r).trans evaluates, evaluates⟩

/-- A chain with a negated list, over a table that is open to any field. -/
theorem compiled_filter_meaning_of_list :
    ∃ g, Filter.parse [] "a eq 1 and not ((b eq 'x' or b eq 'it''s'))" = .ok (some g) ∧
      ∀ r, ∃ b, g.holds [] none r = .ok b ∧
        (Filter.combine .and [.test ⟨"a", .compare .eq, .literal "1", false⟩,
          .test ⟨"b", .oneOf, .list [.literal "x", .literal "'it''s'"], true⟩]).holdsBy
          (Scope.testHolds ⟨.table, FieldMap.openFor .table, []⟩ r) = .ok b := by
  have parsed : Filter.parse [] "a = 1 and b not in (x, 'it''s')" =
      .ok (some (.combine .and [.test ⟨"a", .compare .eq, .literal "1", false⟩,
        .test ⟨"b", .oneOf, .list [.literal "x", .literal "'it''s'"], true⟩])) := by
    decide +kernel
  have compiled : Compiler.compile ⟨FieldMap.openFor .table, [], 14⟩
      (.combine .and [.test ⟨"a", .compare .eq, .literal "1", false⟩,
        .test ⟨"b", .oneOf, .list [.literal "x", .literal "'it''s'"], true⟩]) =
      .ok ⟨"a eq 1 and not ((b eq 'x' or b eq 'it''s'))", []⟩ := rfl
  have meaning := compiled_filter_meaning ⟨FieldMap.openFor .table, [], 14⟩ parsed compiled
  refine meaning ?_
  intro c member
  have either : c ∈ [_, _] := member
  simp only [List.mem_cons, List.not_mem_nil, or_false] at either
  rcases either with rfl | rfl
  · refine writable_of_values rfl (by decide) fun o single => ?_
    cases List.mem_singleton.mp single
    exact ⟨.int 1, rfl, show minInt64 ≤ 1 ∧ 1 ≤ maxInt64 by decide, rfl⟩
  · refine writable_of_values rfl (by decide) fun o single => ?_
    rcases List.mem_cons.mp single with rfl | single
    · exact ⟨.string "x", rfl, trivial, rfl⟩
    · cases List.mem_singleton.mp single
      exact ⟨.string "it's", rfl, trivial, rfl⟩

end StoreGateway.Entity

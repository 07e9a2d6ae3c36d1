import StoreGateway.Proofs.Patterns

/-! Comparisons on their own terms: without parameters, and as they are written. -/

namespace StoreGateway

namespace Filter

variable {leaf leaf' : Comparison → Except EvalFault Bool}

mutual

/-- A filter's truth depends on that of its comparisons. -/
theorem holdsBy_congr : ∀ {f : Filter}, (∀ c ∈ f.comparisons, leaf c = leaf' c) →
    f.holdsBy leaf = f.holdsBy leaf'
  | .test c, same => same c List.mem_cons_self
  | .combine .and children, same => by
    rw [holdsBy, holdsBy]
    exact allHoldBy_congr fun c member => same c member
  | .combine .or children, same => by
    rw [holdsBy, holdsBy]
    exact anyHoldsBy_congr fun c member => same c member
  | .combine .not [], _ => rfl
  | .combine .not (child :: _), same => by
    rw [holdsBy, holdsBy, holdsBy_congr fun c member =>
      same c (mem_comparisonsAll List.mem_cons_self member)]

theorem allHoldBy_congr : ∀ {fs : List Filter}, (∀ c ∈ comparisonsAll fs, leaf c = leaf' c) →
    allHoldBy leaf fs = allHoldBy leaf' fs
  | [], _ => rfl
  | f :: fs, same => by
    rw [allHoldBy, allHoldBy,
      holdsBy_congr fun c member => same c (mem_comparisonsAll List.mem_cons_self member),
      allHoldBy_congr fun c member => same c (List.mem_append_right _ member)]

theorem anyHoldsBy_congr : ∀ {fs : List Filter}, (∀ c ∈ comparisonsAll fs, leaf c = leaf' c) →
    anyHoldsBy leaf fs = anyHoldsBy leaf' fs
  | [], _ => rfl
  | f :: fs, same => by
    rw [anyHoldsBy, anyHoldsBy,
      holdsBy_congr fun c member => same c (mem_comparisonsAll List.mem_cons_self member),
      anyHoldsBy_congr fun c member => same c (List.mem_append_right _ member)]

end

theorem planned_of_planAll {scope : Scope} {fs : List Filter} {ps : List Plan}
    (planned : scope.planAll fs = .ok ps) : ∀ f ∈ fs, ∃ p, scope.plan f = .ok p := by
  rw [Scope.planAll_eq_mapM] at planned
  intro f member
  obtain ⟨p, -, here⟩ := (mapM_ok planned).1 f member
  exact ⟨p, here⟩

/-- A filter is planned comparison by comparison. -/
theorem Formed.planned_each {P : Comparison → Prop} {scope : Scope} {f : Filter}
    (formed : Formed P f) {p : Plan} (planned : scope.plan f = .ok p) :
    ∀ c ∈ f.comparisons, ∃ q, scope.planTest c = .ok q := by
  induction formed generalizing p with
  | test _ =>
    intro c member
    cases List.mem_singleton.mp member
    exact ⟨p, planned⟩
  | negation _ ih =>
    obtain ⟨q, inner, -⟩ := Scope.plan_negation_cases planned
    intro c member
    obtain ⟨g, inside, found⟩ := exists_of_mem_comparisonsAll member
    cases List.mem_singleton.mp inside
    exact ih inner c found
  | @chain op children is _ _ ih =>
    have all : ∃ ps, scope.planAll children = .ok ps := by
      cases op with
      | not => exact absurd rfl is
      | and =>
        obtain ⟨ps, inner, -⟩ := Scope.plan_all_cases planned
        exact ⟨ps, inner⟩
      | or =>
        obtain ⟨ps, inner, -⟩ := Scope.plan_any_cases planned
        exact ⟨ps, inner⟩
    obtain ⟨ps, inner⟩ := all
    intro c member
    obtain ⟨g, inside, found⟩ := exists_of_mem_comparisonsAll member
    obtain ⟨q, here⟩ := planned_of_planAll inner g inside
    exact ih g inside here c found

end Filter

/-- A comparison that names no parameter. -/
def Comparison.Unparameterized (c : Comparison) : Prop :=
  ∀ o ∈ c.operand.singles, ∀ name, o ≠ .param name

variable {scope : Scope} {c : Comparison} {field : Field}

/-- The operands of a comparison that is planned can be coerced. -/
theorem Scope.coerces_of_condition {condition : Condition} (formed : c.Formed)
    (planned : scope.condition field c.relation c.operand = .ok condition) :
    ∀ o ∈ c.operand.singles, ∃ x, o.coerce scope.params field = .ok x := by
  rcases c with ⟨name, relation, operand, negated⟩
  have alone {x : Coerced} (single : operand.IsSingle)
      (coerced : operand.coerce scope.params field = .ok x) :
      ∀ o ∈ operand.singles, ∃ x, o.coerce scope.params field = .ok x := by
    rw [(Operand.coerced_of_single scope.params field single).2]
    intro o member
    cases List.mem_singleton.mp member
    exact ⟨x, coerced⟩
  have step : scope.Planned field relation operand condition := Scope.planned_of_condition planned
  cases step with
  | compare coerced => exact alone (formed.single rfl rfl) coerced
  | like coerced _ => exact alone (formed.single rfl rfl) coerced
  | oneOf coerced =>
    intro o member
    obtain ⟨x, -, same⟩ := (mapM_ok coerced).1 o member
    exact ⟨x, same⟩
  | isNull _ =>
    rw [formed.nothing rfl]
    nofun
  | isNotNull _ =>
    rw [formed.nothing rfl]
    nofun

theorem unparameterized_of_planned {p : Plan} (formed : c.Formed)
    (planned : scope.planTest c = .ok p)
    (unbound : ∀ name, .param name ∈ c.operand.singles → scope.params.lookup? name = none) :
    c.Unparameterized := by
  obtain ⟨field, condition, -, planned, -⟩ := Scope.planTest_cases planned
  intro o member name is
  subst is
  obtain ⟨x, coerced⟩ := Scope.coerces_of_condition formed planned _ member
  unfold Operand.coerce Operand.value? at coerced
  simp only [unbound name member] at coerced
  cases coerced

theorem Operand.coerce_params {o : Operand} (none : ∀ name, o ≠ .param name)
    (params params' : Params) (field : Field) : o.coerce params field = o.coerce params' field := by
  cases o with
  | param name => exact absurd rfl (none name)
  | _ => rfl

theorem Operand.coercedValue_params {o : Operand} (none : ∀ name, o ≠ .param name)
    (params params' : Params) (field : Field) :
    o.coercedValue params field = o.coercedValue params' field := by
  rw [Operand.coercedValue, Operand.coerce_params none params params' field]
  rfl

theorem Operand.coercedValues_params {items : List Operand}
    (none : ∀ o ∈ items, ∀ name, o ≠ .param name) (params params' : Params) (field : Field) :
    Operand.coercedValues params field items = Operand.coercedValues params' field items := by
  induction items with
  | nil => rfl
  | cons o items ih =>
    rw [Operand.coercedValues, Operand.coercedValues,
      Operand.coercedValue_params (none o List.mem_cons_self) params params' field,
      ih fun o member => none o (List.mem_cons_of_mem _ member)]

/-- Without parameters in it, a comparison says the same whichever have values. -/
theorem Scope.testHolds_params (unparameterized : c.Unparameterized) (kind : StoreKind)
    (fields : FieldMap) (params params' : Params) (r : Record) :
    Scope.testHolds ⟨kind, fields, params⟩ r c = Scope.testHolds ⟨kind, fields, params'⟩ r c := by
  have coerced (field : Field) :
      c.operand.coerced params field = c.operand.coerced params' field := by
    unfold Comparison.Unparameterized at unparameterized
    cases operand : c.operand with
    | list items =>
      rw [operand] at unparameterized
      have none : ∀ o ∈ items, ∀ name, o ≠ .param name := unparameterized
      rw [Operand.coerced, Operand.coerced, Operand.coercedValues_params none params params' field]
    | param name =>
      rw [operand] at unparameterized
      exact absurd rfl (unparameterized _ List.mem_cons_self name)
    | _ => rfl
  unfold Scope.testHolds
  simp only [coerced]
  rfl

/-- A comparison that a schema leaves as it is written: its field is the one that it names, its
literals are of the field's type, and the bound of its pattern lets nothing else in. -/
structure Scope.Leaves (scope : Scope) (c : Comparison) : Prop where
  field : ∀ field, scope.resolve c.field = .ok field → field.name = c.field
  literals : ∀ field, scope.resolve c.field = .ok field → ∀ raw, .literal raw ∈ c.operand.singles →
    conform field (Literal.infer raw) = .ok (Literal.infer raw)
  patterns : c.relation = .like → ∀ pattern, c.operand.evaluate [] = .ok (.string pattern) →
    Literal.IsTight (patternStart pattern)

theorem Operand.coercedValue_literal {raw : String} (params : Params)
    (conforms : conform field (Literal.infer raw) = .ok (Literal.infer raw)) :
    (Operand.literal raw).coercedValue params field = .ok (Literal.infer raw) := by
  unfold Operand.coercedValue Operand.coerce Operand.value?
  simp only [bind, Except.bind, conforms]
  rfl

theorem Operand.coercedValues_eq_evaluateAll {items : List Operand} (params : Params)
    (single : ∀ o ∈ items, o.IsSingle) (none : ∀ o ∈ items, ∀ name, o ≠ .param name)
    (literals : ∀ raw, .literal raw ∈ items →
      conform field (Literal.infer raw) = .ok (Literal.infer raw)) :
    Operand.coercedValues params field items = Operand.evaluateAll [] items := by
  induction items with
  | nil => rfl
  | cons o items ih =>
    rw [Operand.coercedValues, Operand.evaluateAll,
      ih (fun o member => single o (List.mem_cons_of_mem _ member))
        (fun o member => none o (List.mem_cons_of_mem _ member))
        fun raw member => literals raw (List.mem_cons_of_mem _ member)]
    cases o with
    | literal raw => rw [Operand.coercedValue_literal params (literals raw List.mem_cons_self)]; rfl
    | call raw => rfl
    | param name => exact absurd rfl (none _ List.mem_cons_self name)
    | absent => exact (single _ List.mem_cons_self).elim
    | list inner => exact (single _ List.mem_cons_self).elim

theorem pattern_of_planned {o : Operand} {v : Value} {condition : Condition}
    (planned : scope.condition field .like o = .ok condition)
    (value : o.coercedValue scope.params field = .ok v) :
    patternCondition field.name v = .ok condition := by
  cases Scope.planned_of_condition planned with
  | like coerced pattern =>
    rw [Operand.coercedValue, coerced] at value
    cases value
    exact pattern

/-- A comparison that is left as it is written says of a record what it does on its own. -/
theorem Scope.testHolds_of_leaves {p : Plan} (formed : c.Formed) (leaves : scope.Leaves c)
    (unparameterized : c.Unparameterized) (planned : scope.planTest c = .ok p) (r : Record) :
    scope.testHolds r c = c.holds [] none r := by
  obtain ⟨field, condition, resolved, planned, -⟩ := Scope.planTest_cases planned
  have conforms := leaves.literals field resolved
  unfold Comparison.Unparameterized at unparameterized
  rw [Scope.testHolds_of_resolved resolved, leaves.field field resolved]
  have evaluates : c.operand.coerced scope.params field = c.operand.evaluate [] := by
    cases operand : c.operand with
    | absent => rfl
    | literal raw =>
      rw [operand] at conforms
      exact Operand.coercedValue_literal scope.params (conforms raw List.mem_cons_self)
    | param name =>
      rw [operand] at unparameterized
      exact absurd rfl (unparameterized _ List.mem_cons_self name)
    | call raw => rfl
    | list items =>
      rw [operand] at conforms unparameterized
      obtain ⟨item, others, list, single⟩ := formed.list (by rw [formed.relation_of_list operand]; rfl)
      cases operand.symm.trans list
      rw [Operand.coerced, Operand.evaluate, Operand.coercedValues_eq_evaluateAll scope.params single
        unparameterized conforms]
  have tells : ∀ v, c.operand.evaluate [] = .ok v → ∀ actual,
      c.relation.holdsCoerced actual v = c.relation.holds actual v := by
    intro v evaluated actual
    cases relation : c.relation with
    | like =>
      have single := formed.single (by rw [relation]; rfl) (by rw [relation]; rfl)
      rw [relation] at planned
      have value := evaluates.trans evaluated
      rw [(Operand.coerced_of_single scope.params field single).1] at value
      have asked := pattern_of_planned planned value
      cases v with
      | string pattern =>
        exact patternHolds_eq asked (leaves.patterns relation pattern evaluated) actual
      | _ => cases asked
    | _ => rfl
  rw [evaluates]
  change _ = (c.operand.evaluate [] >>= _)
  cases evaluated : c.operand.evaluate [] with
  | error fault => rfl
  | ok v =>
    change Except.ok _ = Except.ok _
    rw [tells v evaluated]
    rfl

end StoreGateway

import StoreGateway.Proofs.EntityMeaning

/-! Every filter text of the entity table reads as a filter again, whatever becomes of its values. -/

namespace StoreGateway

/-- What the text of a comparison in the entity language says of a record. -/
def Scope.writtenHolds (scope : Scope) (r : Record) (c : Comparison) : Except EvalFault Bool :=
  match scope.planTest c with
  | .error _ => .ok false
  | .ok p =>
    match Filter.parse [] (Entity.planText p) with
    | .ok (some f) => f.holds [] none r
    | _ => .ok false

namespace Entity

open StoreGateway.Filter

variable {scope : Scope} {c : Comparison} {name : String}

/-- The operands of a comparison as they are coerced: values, and calls as they were read. -/
def IsOperand (x : Coerced) : Prop := ∀ raw, x = .native raw → IsCall raw.toList

theorem readsAs_operandText {x : Coerced} (is : IsOperand x) :
    ∃ o, ReadsAs [] (operandText x).toList o := by
  cases x with
  | value v => exact ⟨_, readsAs_text v⟩
  | native raw => exact ⟨_, (is raw rfl).readsAs⟩

theorem isOperand_of_single {field : Field} {o : Operand} {x : Coerced} (single : o.IsSingle)
    (coerced : o.coerce scope.params field = .ok x) : IsOperand x := by
  intro raw native
  rcases Operand.coerce_single single coerced with ⟨v, rfl, -⟩ | ⟨call, -, rfl, is, -⟩
  · cases native
  · cases native
    exact is

theorem isOperand_of_all {field : Field} {items : List Operand} {operands : List Coerced}
    (single : ∀ o ∈ items, o.IsSingle)
    (coerced : items.mapM (Operand.coerce scope.params field) = .ok operands) :
    operands.length = items.length ∧ ∀ x ∈ operands, IsOperand x := by
  induction items generalizing operands with
  | nil => cases coerced; exact ⟨rfl, nofun⟩
  | cons o items ih =>
    rw [List.mapM_cons] at coerced
    cases first : o.coerce scope.params field with
    | error fault => rw [first] at coerced; cases coerced
    | ok x =>
      cases rest : items.mapM (Operand.coerce scope.params field) with
      | error fault => rw [first, rest] at coerced; cases coerced
      | ok others =>
        rw [first, rest] at coerced
        cases coerced
        obtain ⟨length, all⟩ := ih (fun o member => single o (List.mem_cons_of_mem _ member)) rest
        refine ⟨by rw [List.length_cons, List.length_cons, length], fun y member => ?_⟩
        rcases List.mem_cons.mp member with rfl | member
        · exact isOperand_of_single (single o List.mem_cons_self) first
        · exact all y member

theorem exists_means_operand (is : IsField name.toList) (k : Comparator) {x : Coerced}
    (operand : IsOperand x) :
    ∃ meaning, Means [] none .not (name ++ " " ++ k.entityWord ++ " " ++ operandText x) meaning := by
  obtain ⟨o, readsAs⟩ := readsAs_operandText operand
  exact ⟨_, means_operand is k readsAs⟩

theorem exists_means_oneOf (is : IsField name.toList) {operands : List Coerced}
    (present : operands ≠ []) (all : ∀ x ∈ operands, IsOperand x) :
    ∃ meaning, Means [] none .not (conditionText name (.oneOf operands)) meaning := by
  obtain ⟨pairs, rfl, each⟩ := exists_pairs fun x member => exists_means_operand is .eq (all x member)
  let items : List Phrase := pairs.map fun p => (equality name (operandText p.1), p.2)
  have means : ∀ item ∈ items, Means [] none .and item.1 item.2 := by
    intro item member
    obtain ⟨p, inside, rfl⟩ := List.mem_map.mp member
    rw [equality_eq]
    exact (each p inside).toAnd
  have texts : items.map Prod.fst =
      (pairs.map Prod.fst).map fun x => equality name (operandText x) := by
    simp [items]
  have chain := means_chain_or "or" " or " (by decide) rfl rfl items
    (by simpa [items] using present) means
  rw [texts] at chain
  exact ⟨_, chain.group⟩

theorem exists_means_condition {field : Field} {condition : Condition}
    (table : scope.kind = .table) (formed : c.Formed) (is : IsField field.name.toList)
    (planned : scope.condition field c.relation c.operand = .ok condition) :
    ∃ meaning, Means [] none .not (conditionText field.name condition) meaning := by
  rcases c with ⟨name, relation, operand, negated⟩
  have step : scope.Planned field relation operand condition := Scope.planned_of_condition planned
  cases step with
  | @compare k _ x coerced =>
    exact exists_means_operand is k (isOperand_of_single (formed.single rfl rfl) coerced)
  | oneOf coerced =>
    obtain ⟨some, all⟩ := formed.items rfl
    obtain ⟨length, each⟩ := isOperand_of_all all coerced
    exact exists_means_oneOf is (ne_nil_of_length some length) each
  | like coerced pattern =>
    rcases patternCondition_cases pattern with ⟨text, rfl⟩ | ⟨lower, upper, rfl⟩
    · exact ⟨_, means_exactly is text⟩
    · exact ⟨_, means_between is lower upper⟩
  | isNull document => exact absurd document (Scope.not_document table)
  | isNotNull document => exact absurd document (Scope.not_document table)

/-- The field of a comparison is not written as a word of negation. -/
def NamesField (scope : Scope) (c : Comparison) : Prop :=
  ∀ field, scope.resolve c.field = .ok field → Text.asciiLower field.name ≠ "not"

theorem isField_of_resolved {field : Field} (formed : c.Formed) (names : NamesField scope c)
    (resolved : scope.resolve c.field = .ok field) : IsField field.name.toList :=
  ⟨Scope.resolve_isWord resolved formed.field, by
    rw [String.ofList_toList]
    exact names field resolved⟩

theorem writtenHolds_of_means {p : Plan} {meaning : Record → Except EvalFault Bool}
    (planned : scope.planTest c = .ok p) (means : Means [] none .not (planText p) meaning)
    (r : Record) : scope.writtenHolds r c = meaning r := by
  obtain ⟨f, parses, holds⟩ := means.toAnd.toOr.parse
  simp only [Scope.writtenHolds, planned, parses, holds]

theorem means_written (table : scope.kind = .table) (formed : c.Formed)
    (names : NamesField scope c) {p : Plan} (planned : scope.planTest c = .ok p) :
    Means [] none .not (planText p) fun r => scope.writtenHolds r c := by
  obtain ⟨field, condition, resolved, conditioned, rfl⟩ := Scope.planTest_cases planned
  obtain ⟨meaning, means⟩ := exists_means_condition table formed
    (isField_of_resolved formed names resolved) conditioned
  have test := means_test c.negated means
  simp only [writtenHolds_of_means planned test]
  exact test

theorem stands_written (table : scope.kind = .table) {f : Filter}
    (formed : Formed Comparison.Formed f) (names : ∀ c ∈ f.comparisons, NamesField scope c) :
    ∀ p, scope.plan f = .ok p →
      Stands [] none p.isChain (planText p) fun r => f.holdsBy (scope.writtenHolds r) :=
  stands_tests ((formed.and names).imp fun _ demand _ planned =>
    means_written table demand.1 demand.2 planned)

theorem compiled_written {compiler : Compiler} {f : Filter} {native : CompiledFilter}
    (compiled : compiler.compile f = .ok native) (formed : Formed Comparison.Formed f)
    (names : ∀ c ∈ f.comparisons, NamesField compiler.scope c) :
    (∃ p, compiler.scope.plan f = .ok p) ∧ ∃ h, Filter.parse [] native.text = .ok (some h) ∧
      ∀ r, h.holds [] none r = f.holdsBy (compiler.scope.writtenHolds r) := by
  obtain ⟨p, planned, rfl⟩ := Compiler.plan_of_compile compiled
  exact ⟨⟨p, planned⟩, (stands_written rfl formed names p planned).1.parse⟩

/-- A comparison that the entity language keeps the meaning of: values with a literal that reads
back, neither a null nor a call in a list, and no field that reads as a negation. -/
structure Faithful (scope : Scope) (c : Comparison) : Prop where
  names : NamesField scope c
  readable : ∀ field, scope.resolve c.field = .ok field → ∀ o ∈ c.operand.singles, ∀ v,
    o.coerce scope.params field = .ok (.value v) → Literal.Readable v
  listed : c.relation = .oneOf → ∀ o ∈ c.operand.singles, (∀ raw, o ≠ .call raw) ∧
    ∀ field, scope.resolve c.field = .ok field → ∀ v,
      o.coerce scope.params field = .ok (.value v) → v.isNull = false

theorem Faithful.writable (faithful : Faithful scope c)
    (no_call : ∀ o ∈ c.operand.singles, ∀ raw, o ≠ .call raw) : Writable scope c where
  no_call := no_call
  readable := faithful.readable
  no_null list field resolved o member := (faithful.listed list o member).2 field resolved
  not_not := faithful.names

theorem means_call {p : Plan} {raw : String} (table : scope.kind = .table) (formed : c.Formed)
    (names : NamesField scope c) (call : c.operand = .call raw)
    (planned : scope.planTest c = .ok p) :
    Means [] none .not (planText p) fun r => scope.testHolds r c := by
  obtain ⟨field, condition, resolved, conditioned, rfl⟩ := Scope.planTest_cases planned
  have is := isField_of_resolved formed names resolved
  rcases c with ⟨name, relation, operand, negated⟩
  cases call
  have step : scope.Planned field relation (.call raw) condition :=
    Scope.planned_of_condition conditioned
  cases step with
  | @compare k _ x coerced =>
    cases coerced
    have isCall : IsCall raw.toList := formed.single rfl rfl
    have means : Means [] none .not (conditionText field.name (.compare k (.native raw))) _ :=
      means_operand is k isCall.readsAs
    simp only [Scope.testHolds_of_resolved resolved]
    have test := means_test negated means
    rw [String.ofList_toList] at test
    exact test
  | like coerced pattern => cases coerced
  | isNull document => exact absurd document (Scope.not_document table)
  | isNotNull document => exact absurd document (Scope.not_document table)

theorem means_faithful {p : Plan} (table : scope.kind = .table) (formed : c.Formed)
    (faithful : Faithful scope c) (planned : scope.planTest c = .ok p) :
    Means [] none .not (planText p) fun r => scope.testHolds r c := by
  cases call : c.operand with
  | call raw => exact means_call table formed faithful.names call planned
  | list items =>
    have all := faithful.listed (formed.relation_of_list call)
    exact means_planTest table formed (faithful.writable fun o member => (all o member).1) planned
  | _ =>
    refine means_planTest table formed (faithful.writable ?_) planned
    rw [call]
    simp [Operand.singles]

theorem writtenHolds_of_faithful {p : Plan} (table : scope.kind = .table) (formed : c.Formed)
    (faithful : Faithful scope c) (planned : scope.planTest c = .ok p) (r : Record) :
    scope.writtenHolds r c = scope.testHolds r c :=
  writtenHolds_of_means planned (means_faithful table formed faithful planned) r

end Entity

end StoreGateway

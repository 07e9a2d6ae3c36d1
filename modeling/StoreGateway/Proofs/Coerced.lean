import StoreGateway.Proofs.Meaning
import StoreGateway.Proofs.Shape

/-! Filters evaluated with their fields resolved and their operands coerced. -/

namespace StoreGateway

theorem bind_ok {α β ε : Type} {x : Except ε α} {next : α → Except ε β} {b : β}
    (made : x >>= next = .ok b) : ∃ a, x = .ok a ∧ next a = .ok b := by
  cases x with
  | error e => cases made
  | ok a => exact ⟨a, rfl, made⟩

theorem map_ok {α β ε : Type} {x : Except ε α} {f : α → β} {b : β} (made : x.map f = .ok b) :
    ∃ a, x = .ok a ∧ b = f a := by
  cases x with
  | error e => cases made
  | ok a => exact ⟨a, rfl, (Except.ok.inj made).symm⟩

theorem mapM_cons_ok {α β ε : Type} {f : α → Except ε β} {x : α} {xs : List α} {ys : List β}
    (made : (x :: xs).mapM f = .ok ys) :
    ∃ y others, f x = .ok y ∧ xs.mapM f = .ok others ∧ ys = y :: others := by
  rw [List.mapM_cons] at made
  obtain ⟨y, first, made⟩ := bind_ok made
  obtain ⟨others, rest, made⟩ := bind_ok made
  cases made
  exact ⟨y, others, first, rest, rfl⟩

/-- The parts of a list that is put together part by part. -/
theorem mapM_ok {α β ε : Type} {f : α → Except ε β} {xs : List α} {ys : List β}
    (made : xs.mapM f = .ok ys) :
    (∀ x ∈ xs, ∃ y ∈ ys, f x = .ok y) ∧ ∀ y ∈ ys, ∃ x ∈ xs, f x = .ok y := by
  induction xs generalizing ys with
  | nil =>
    cases made
    exact ⟨nofun, nofun⟩
  | cons x xs ih =>
    obtain ⟨y, others, first, rest, rfl⟩ := mapM_cons_ok made
    obtain ⟨forth, back⟩ := ih rest
    refine ⟨fun x' member => ?_, fun y' member => ?_⟩
    · rcases List.mem_cons.mp member with rfl | member
      · exact ⟨y, List.mem_cons_self, first⟩
      · obtain ⟨y', inside, same⟩ := forth x' member
        exact ⟨y', List.mem_cons_of_mem y inside, same⟩
    · rcases List.mem_cons.mp member with rfl | member
      · exact ⟨x, List.mem_cons_self, first⟩
      · obtain ⟨x', inside, same⟩ := back y' member
        exact ⟨x', List.mem_cons_of_mem x inside, same⟩

theorem mapM_of_each {α β ε : Type} {f : α → Except ε β} {xs : List α}
    (each : ∀ x ∈ xs, ∃ y, f x = .ok y) : ∃ ys, xs.mapM f = .ok ys := by
  induction xs with
  | nil => exact ⟨[], rfl⟩
  | cons x xs ih =>
    obtain ⟨y, first⟩ := each x List.mem_cons_self
    obtain ⟨ys, rest⟩ := ih fun x member => each x (List.mem_cons_of_mem _ member)
    exact ⟨y :: ys, by rw [List.mapM_cons, first, rest]; rfl⟩

theorem mapM_map_ok {α β γ ε : Type} {f : α → Except ε β} {source : γ → α} {result : γ → β}
    {items : List γ} (each : ∀ i ∈ items, f (source i) = .ok (result i)) :
    (items.map source).mapM f = .ok (items.map result) := by
  induction items with
  | nil => rfl
  | cons i items ih =>
    have rest := ih fun other member => each other (List.mem_cons_of_mem i member)
    rw [List.map_cons, List.mapM_cons, each i List.mem_cons_self, rest]
    rfl

namespace Operand

/-- The value of an operand brought in line with a field. One that can have no such value counts as
null; no compiler takes a filter with one. -/
def coercedValue (params : Params) (field : Field) (o : Operand) : Except EvalFault Value :=
  match o.coerce params field with
  | .ok (.value v) => .ok v
  | .ok (.native raw) => .error (.unknownCall raw)
  | .error _ => .ok .null

def coercedValues (params : Params) (field : Field) : List Operand → Except EvalFault (List Value)
  | [] => .ok []
  | o :: rest => do
    let v ← o.coercedValue params field
    return v :: (← coercedValues params field rest)

/-- A list has the array of its operands' values. -/
def coerced (params : Params) (field : Field) : Operand → Except EvalFault Value
  | .list items => do return .array (← coercedValues params field items)
  | o => o.coercedValue params field

/-- The operands that each stand for a value. -/
def singles : Operand → List Operand
  | .absent => []
  | .list items => items
  | o => [o]

end Operand

/-- A pattern as the equality or the range that stands for it. -/
def patternHolds (actual : Option Value) (pattern : Value) : Bool :=
  match patternCondition "" pattern with
  | .ok (.exactly text) => Comparator.eq.holds actual (.string text)
  | .ok (.between lower upper) =>
    Comparator.ge.holds actual (.string lower) &&
      upper.all fun bound => Comparator.lt.holds actual (.string bound)
  | _ => false

/-- What a relation says of a field's value and a coerced operand. -/
def Relation.holdsCoerced (r : Relation) (actual : Option Value) (expected : Value) : Bool :=
  match r with
  | .like => patternHolds actual expected
  | r => r.holds actual expected

/-- The truth of a comparison with its field resolved and its operand coerced. A field that is
unknown satisfies nothing; no compiler takes a filter with one. -/
def Scope.testHolds (scope : Scope) (r : Record) (c : Comparison) : Except EvalFault Bool :=
  match scope.resolve c.field with
  | .error _ => .ok false
  | .ok field => do
    let expected ← c.operand.coerced scope.params field
    return c.relation.holdsCoerced (r.present? field.name) expected != c.negated

namespace Filter

mutual

def comparisons : Filter → List Comparison
  | .test c => [c]
  | .combine _ children => comparisonsAll children

def comparisonsAll : List Filter → List Comparison
  | [] => []
  | f :: rest => comparisons f ++ comparisonsAll rest

end

theorem mem_comparisonsAll {c : Comparison} {fs : List Filter} {f : Filter} (member : f ∈ fs)
    (inside : c ∈ f.comparisons) : c ∈ comparisonsAll fs := by
  induction fs with
  | nil => cases member
  | cons g fs ih =>
    rw [comparisonsAll]
    rcases List.mem_cons.mp member with rfl | member
    · exact List.mem_append_left _ inside
    · exact List.mem_append_right _ (ih member)

theorem exists_of_mem_comparisonsAll {c : Comparison} {fs : List Filter}
    (inside : c ∈ comparisonsAll fs) : ∃ f ∈ fs, c ∈ f.comparisons := by
  induction fs with
  | nil => cases inside
  | cons g fs ih =>
    rw [comparisonsAll] at inside
    rcases List.mem_append.mp inside with here | later
    · exact ⟨g, List.mem_cons_self, here⟩
    · obtain ⟨f, member, found⟩ := ih later
      exact ⟨f, List.mem_cons_of_mem g member, found⟩

theorem Formed.each {P : Comparison → Prop} {f : Filter} (formed : Formed P f) :
    ∀ c ∈ f.comparisons, P c := by
  induction formed with
  | test formed =>
    intro c member
    cases List.mem_singleton.mp member
    exact formed
  | negation _ ih =>
    intro c member
    obtain ⟨g, inside, found⟩ := exists_of_mem_comparisonsAll member
    cases List.mem_singleton.mp inside
    exact ih c found
  | chain _ _ _ ih =>
    intro c member
    obtain ⟨g, inside, found⟩ := exists_of_mem_comparisonsAll member
    exact ih g inside c found

theorem Formed.imp {P Q : Comparison → Prop} {f : Filter} (formed : Formed P f)
    (weaker : ∀ c, P c → Q c) : Formed Q f := by
  induction formed with
  | test formed => exact .test (weaker _ formed)
  | negation _ ih => exact .negation ih
  | chain is present _ ih => exact .chain is present ih

theorem Formed.and {P Q : Comparison → Prop} {f : Filter} (formed : Formed P f)
    (all : ∀ c ∈ f.comparisons, Q c) : Formed (fun c => P c ∧ Q c) f := by
  induction formed with
  | @test c formed => exact .test ⟨formed, all c (by simp [comparisons])⟩
  | @negation f _ ih =>
    refine .negation (ih fun c member => all c ?_)
    exact mem_comparisonsAll List.mem_cons_self member
  | @chain op children is present _ ih =>
    refine .chain is present fun f member => ih f member fun c inside => all c ?_
    exact mem_comparisonsAll member inside

theorem Formed.holdsBy_ok {P : Comparison → Prop} {leaf : Comparison → Except EvalFault Bool}
    {f : Filter} (formed : Formed P f) (each : ∀ c, P c → ∃ b, leaf c = .ok b) :
    ∃ b, f.holdsBy leaf = .ok b := by
  induction formed with
  | test formed => exact each _ formed
  | negation _ ih =>
    obtain ⟨b, holds⟩ := ih
    exact ⟨!b, by rw [holdsBy, holds]; rfl⟩
  | @chain op children is _ _ ih =>
    have all (fs : List Filter) (inside : ∀ f ∈ fs, ∃ b, f.holdsBy leaf = .ok b) :
        ∃ outcomes : List Bool, fs.map (holdsBy leaf) = outcomes.map .ok := by
      induction fs with
      | nil => exact ⟨[], rfl⟩
      | cons f fs ih =>
        obtain ⟨b, holds⟩ := inside f List.mem_cons_self
        obtain ⟨outcomes, others⟩ := ih fun g member => inside g (List.mem_cons_of_mem f member)
        exact ⟨b :: outcomes, by rw [List.map_cons, List.map_cons, holds, others]⟩
    obtain ⟨outcomes, same⟩ := all children ih
    cases op with
    | not => exact absurd rfl is
    | and => exact ⟨_, by rw [holdsBy, allHoldBy_eq_allOf, same, allOf_ok]⟩
    | or => exact ⟨_, by rw [holdsBy, anyHoldsBy_eq_anyOf, same, anyOf_ok]⟩

end Filter

theorem isWordChar_toLower (c : Char) : Filter.isWordChar c.toLower = Filter.isWordChar c := by
  by_cases upper : c.isUpper = true
  · have letters : ∀ n ∈ List.range 26, Filter.isWordChar (Char.ofNat (65 + n)).toLower =
        Filter.isWordChar (Char.ofNat (65 + n)) := by decide +kernel
    have bounds : 65 ≤ c.toNat ∧ c.toNat ≤ 90 := of_decide_eq_true upper
    have here := letters (c.toNat - 65) (List.mem_range.mpr (by omega))
    rwa [Nat.add_sub_cancel' bounds.1, Char.ofNat_toNat] at here
  · have same : c.toLower = c := by
      exact dif_neg fun bounds => upper (decide_eq_true bounds)
    rw [same]

theorem isWord_of_asciiLower {a b : String} (same : Text.asciiLower a = Text.asciiLower b)
    (is : Filter.IsWord b.toList) : Filter.IsWord a.toList := by
  have lists : a.toList.map Char.toLower = b.toList.map Char.toLower := by
    have := congrArg String.toList same
    simpa only [Text.asciiLower, String.toList_ofList] using this
  refine ⟨fun empty => ?_, fun c member => ?_⟩
  · rw [empty, List.map_nil] at lists
    exact is.present (List.map_eq_nil_iff.mp lists.symm)
  · have lower : c.toLower ∈ b.toList.map Char.toLower := by
      rw [← lists]
      exact List.mem_map_of_mem member
    obtain ⟨d, inside, other⟩ := List.mem_map.mp lower
    rw [← isWordChar_toLower, ← other, isWordChar_toLower]
    exact is.letters d inside

/-- A field is found by its name in some case. -/
theorem FieldMap.resolve_asciiLower {map : FieldMap} {name : String} {field : Field}
    (resolved : map.resolve name = .ok field) :
    Text.asciiLower field.name = Text.asciiLower name := by
  unfold FieldMap.resolve at resolved
  split at resolved
  · next found =>
    cases resolved
    unfold FieldMap.get? at found
    rcases Option.or_eq_some_iff.mp found with exact | ⟨-, similar⟩
    · have is := List.find?_some exact
      rw [eq_of_beq is]
    · have is := List.find?_some similar
      exact eq_of_beq is
  · split at resolved
    · cases resolved
      rfl
    · cases resolved

theorem Scope.resolve_asciiLower {scope : Scope} {name : String} {field : Field}
    (resolved : scope.resolve name = .ok field) :
    Text.asciiLower field.name = Text.asciiLower name := by
  unfold Scope.resolve at resolved
  split at resolved
  · next found =>
    cases resolved
    exact FieldMap.resolve_asciiLower found
  · cases resolved

theorem Scope.resolve_isWord {scope : Scope} {name : String} {field : Field}
    (resolved : scope.resolve name = .ok field) (is : Filter.IsWord name.toList) :
    Filter.IsWord field.name.toList :=
  isWord_of_asciiLower (resolve_asciiLower resolved) is

/-- What a relation and its operand are planned as. -/
inductive Scope.Planned (scope : Scope) (field : Field) :
    Relation → Operand → Condition → Prop
  | compare {k : Comparator} {o : Operand} {x : Coerced}
      (coerced : o.coerce scope.params field = .ok x) :
      Planned scope field (.compare k) o (.compare k x)
  | oneOf {items : List Operand} {operands : List Coerced}
      (coerced : items.mapM (Operand.coerce scope.params field) = .ok operands) :
      Planned scope field .oneOf (.list items) (.oneOf operands)
  | like {o : Operand} {v : Value} {condition : Condition}
      (coerced : o.coerce scope.params field = .ok (.value v))
      (pattern : patternCondition field.name v = .ok condition) :
      Planned scope field .like o condition
  | isNull {o : Operand} (document : scope.kind = .document) :
      Planned scope field .isNull o (.nullCheck false)
  | isNotNull {o : Operand} (document : scope.kind = .document) :
      Planned scope field .isNotNull o (.nullCheck true)

theorem Scope.planned_of_condition {scope : Scope} {field : Field} {relation : Relation}
    {o : Operand} {condition : Condition}
    (planned : scope.condition field relation o = .ok condition) :
    scope.Planned field relation o condition := by
  unfold Scope.condition at planned
  cases relation with
  | compare k =>
    cases coerced : o.coerce scope.params field with
    | error fault => simp only [coerced] at planned; cases planned
    | ok x =>
      simp only [coerced] at planned
      cases planned
      exact .compare coerced
  | oneOf =>
    cases o with
    | list items =>
      cases coerced : items.mapM (Operand.coerce scope.params field) with
      | error fault => simp only [coerced] at planned; cases planned
      | ok operands =>
        simp only [coerced] at planned
        cases planned
        exact .oneOf coerced
    | _ => cases planned
  | like =>
    cases coerced : o.coerce scope.params field with
    | error fault => simp only [coerced] at planned; cases planned
    | ok x =>
      cases x with
      | native raw => simp only [coerced] at planned; cases planned
      | value v =>
        simp only [coerced] at planned
        exact .like coerced planned
  | isNull =>
    cases kind : scope.kind with
    | table => simp only [kind] at planned; cases planned
    | document =>
      simp only [kind] at planned
      cases planned
      exact .isNull kind
  | isNotNull =>
    cases kind : scope.kind with
    | table => simp only [kind] at planned; cases planned
    | document =>
      simp only [kind] at planned
      cases planned
      exact .isNotNull kind

theorem Scope.not_document {scope : Scope} (table : scope.kind = .table) :
    scope.kind ≠ .document := by
  rw [table]
  decide

theorem Scope.planTest_cases {scope : Scope} {c : Comparison} {p : Plan}
    (planned : scope.planTest c = .ok p) :
    ∃ field condition, scope.resolve c.field = .ok field ∧
      scope.condition field c.relation c.operand = .ok condition ∧
      p = .test field.name condition c.negated := by
  unfold Scope.planTest at planned
  obtain ⟨field, resolved, planned⟩ := bind_ok planned
  obtain ⟨condition, made, planned⟩ := bind_ok planned
  cases planned
  exact ⟨field, condition, resolved, made, rfl⟩

theorem Scope.plan_negation_cases {scope : Scope} {f : Filter} {p : Plan}
    (planned : scope.plan (.combine .not [f]) = .ok p) :
    ∃ q, scope.plan f = .ok q ∧ p = .negate q := by
  rw [Scope.plan] at planned
  obtain ⟨q, inner, planned⟩ := bind_ok planned
  cases planned
  exact ⟨q, inner, rfl⟩

theorem Scope.plan_all_cases {scope : Scope} {children : List Filter} {p : Plan}
    (planned : scope.plan (.combine .and children) = .ok p) :
    ∃ ps, scope.planAll children = .ok ps ∧ p = .all ps := by
  rw [Scope.plan] at planned
  obtain ⟨ps, inner, planned⟩ := bind_ok planned
  cases planned
  exact ⟨ps, inner, rfl⟩

theorem Scope.plan_any_cases {scope : Scope} {children : List Filter} {p : Plan}
    (planned : scope.plan (.combine .or children) = .ok p) :
    ∃ ps, scope.planAll children = .ok ps ∧ p = .any ps := by
  rw [Scope.plan] at planned
  obtain ⟨ps, inner, planned⟩ := bind_ok planned
  cases planned
  exact ⟨ps, inner, rfl⟩

theorem Scope.planAll_eq_mapM (scope : Scope) (fs : List Filter) :
    scope.planAll fs = fs.mapM scope.plan := by
  induction fs with
  | nil => rfl
  | cons f fs ih => rw [Scope.planAll, List.mapM_cons, ih]

theorem Scope.planAll_cons_cases {scope : Scope} {f : Filter} {fs : List Filter} {ps : List Plan}
    (planned : scope.planAll (f :: fs) = .ok ps) :
    ∃ p rest, scope.plan f = .ok p ∧ scope.planAll fs = .ok rest ∧ ps = p :: rest := by
  rw [Scope.planAll_eq_mapM] at planned
  rw [Scope.planAll_eq_mapM]
  exact mapM_cons_ok planned

theorem Scope.testHolds_of_resolved {scope : Scope} {c : Comparison} {field : Field}
    (resolved : scope.resolve c.field = .ok field) (r : Record) :
    scope.testHolds r c = ((c.operand.coerced scope.params field).map
      (c.relation.holdsCoerced (r.present? field.name))).map (· != c.negated) := by
  simp only [Scope.testHolds, resolved]
  cases c.operand.coerced scope.params field <;> rfl

/-- What becomes of an operand: a call is kept, and any other one fails if it has no value, or one that
the field refuses. -/
inductive Operand.Coerces (params : Params) (field : Field) :
    Operand → Except CompileFault Coerced → Prop
  | native {raw : String} : Coerces params field (.call raw) (.ok (.native raw))
  | unknown {o : Operand} {fault : CompileFault} (other : ∀ raw, o ≠ .call raw)
      (missing : o.value? params field.name = .error fault) : Coerces params field o (.error fault)
  | value {o : Operand} {v w : Value} (known : o.value? params field.name = .ok v)
      (conformed : conform field v = .ok w) : Coerces params field o (.ok (.value w))
  | refused {o : Operand} {v : Value} {refusal : ValueFault}
      (known : o.value? params field.name = .ok v)
      (refused : conform field v = .error refusal) :
      Coerces params field o (.error (.value field.name refusal))

theorem Operand.coerces_of_coerce {params : Params} {field : Field} {o : Operand}
    {outcome : Except CompileFault Coerced} (coerced : o.coerce params field = outcome) :
    Coerces params field o outcome := by
  subst coerced
  cases o with
  | call raw => exact .native
  | _ =>
    simp only [coerce, bind, Except.bind]
    split
    · next missing => exact .unknown nofun missing
    · next known =>
      split
      · next conformed => exact .value known conformed
      · next refused => exact .refused known refused

theorem Operand.coerce_native {params : Params} {field : Field} {o : Operand} {raw : String}
    (coerced : o.coerce params field = .ok (.native raw)) : o = .call raw := by
  cases Operand.coerces_of_coerce coerced with
  | native => rfl

theorem Operand.coerce_single {params : Params} {field : Field} {o : Operand} {x : Coerced}
    (single : o.IsSingle) (coerced : o.coerce params field = .ok x) :
    (∃ v, x = .value v ∧ o.coercedValue params field = .ok v) ∨
      ∃ raw, o = .call raw ∧ x = .native raw ∧ Filter.IsCall raw.toList ∧
        o.coercedValue params field = .error (.unknownCall raw) := by
  cases x with
  | value v => exact .inl ⟨v, rfl, by rw [coercedValue, coerced]⟩
  | native raw =>
    cases Operand.coerce_native coerced
    exact .inr ⟨raw, rfl, rfl, single, rfl⟩

theorem Operand.coercedValue_ok (params : Params) (field : Field) {o : Operand}
    (no_call : ∀ raw, o ≠ .call raw) : ∃ v, o.coercedValue params field = .ok v := by
  unfold coercedValue
  split
  · exact ⟨_, rfl⟩
  · next raw coerced => exact absurd (Operand.coerce_native coerced) (no_call raw)
  · exact ⟨_, rfl⟩

theorem Operand.coerced_ok (params : Params) (field : Field) {o : Operand}
    (no_call : ∀ single ∈ o.singles, ∀ raw, single ≠ .call raw) :
    ∃ v, o.coerced params field = .ok v := by
  cases o with
  | absent => exact Operand.coercedValue_ok params field (o := .absent) nofun
  | literal raw => exact Operand.coercedValue_ok params field (o := .literal raw) nofun
  | param name => exact Operand.coercedValue_ok params field (o := .param name) nofun
  | call raw => exact absurd rfl (no_call _ List.mem_cons_self raw)
  | list items =>
    have all : ∃ vs, coercedValues params field items = .ok vs := by
      change ∀ single ∈ items, _ at no_call
      induction items with
      | nil => exact ⟨[], rfl⟩
      | cons o items ih =>
        obtain ⟨v, first⟩ := Operand.coercedValue_ok params field (no_call o List.mem_cons_self)
        obtain ⟨vs, rest⟩ := ih fun o member => no_call o (List.mem_cons_of_mem _ member)
        exact ⟨v :: vs, by rw [coercedValues, first, rest]; rfl⟩
    obtain ⟨vs, all⟩ := all
    exact ⟨.array vs, by rw [coerced, all]; rfl⟩

theorem Scope.testHolds_ok (scope : Scope) {c : Comparison} (r : Record)
    (no_call : ∀ o ∈ c.operand.singles, ∀ raw, o ≠ .call raw) :
    ∃ b, scope.testHolds r c = .ok b := by
  unfold Scope.testHolds
  split
  · exact ⟨false, rfl⟩
  · next field resolved =>
    obtain ⟨v, coerced⟩ := Operand.coerced_ok scope.params field no_call
    rw [coerced]
    exact ⟨_, rfl⟩

theorem Operand.coerced_of_single (params : Params) (field : Field) {o : Operand}
    (single : o.IsSingle) :
    o.coerced params field = o.coercedValue params field ∧ o.singles = [o] := by
  cases o <;> first | exact single.elim | exact ⟨rfl, rfl⟩

theorem patternCondition_cases {name : String} {v : Value} {condition : Condition}
    (planned : patternCondition name v = .ok condition) :
    (∃ text, condition = .exactly text) ∨ ∃ lower upper, condition = .between lower upper := by
  unfold patternCondition at planned
  split at planned
  · split at planned
    · cases planned; exact .inl ⟨_, rfl⟩
    · cases planned; exact .inr ⟨_, _, rfl⟩
    · cases planned
  · cases planned

theorem patternCondition_name {name : String} {v : Value} {condition : Condition}
    (planned : patternCondition name v = .ok condition) (other : String) :
    patternCondition other v = .ok condition := by
  unfold patternCondition at planned ⊢
  split at planned
  · split at planned
    · exact planned
    · exact planned
    · cases planned
  · cases planned

end StoreGateway

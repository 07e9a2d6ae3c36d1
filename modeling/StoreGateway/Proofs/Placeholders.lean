import StoreGateway.Compile.Document
import StoreGateway.Proofs.Equality
import StoreGateway.Proofs.Records

/-! When the placeholders of one compiled document filter are distinct. -/

namespace StoreGateway

/-- Whether an operand is bound; native syntax stands in the text itself. -/
def Coerced.isBound : Coerced → Bool
  | value _ => true
  | native _ => false

/-- How many values a condition binds. -/
def Condition.bindings : Condition → Nat
  | .compare _ operand => [operand].countP Coerced.isBound
  | .oneOf operands => operands.countP Coerced.isBound
  | .exactly _ => 1
  | .between _ (some _) => 2
  | .between _ none => 1
  | .nullCheck _ => 0

namespace Plan

mutual

/-- The stems of the fields that values are bound for, one for each value. -/
def stems : Plan → List String
  | .test field condition _ => List.replicate condition.bindings (Placeholders.stem field)
  | .negate p => stems p
  | .all children => stemsAll children
  | .any children => stemsAll children

def stemsAll : List Plan → List String
  | [] => []
  | p :: rest => stems p ++ stemsAll rest

end

end Plan

namespace Placeholders

def named (stem : String) (n : Nat) : String := "@" ++ stem ++ toString n

/-- The placeholders for some stems, when so many have been given out for each before. -/
def numberFrom (given : String → Nat) : List String → List String
  | [] => []
  | s :: rest =>
    named s (given s + 1) :: numberFrom (fun t => if t = s then given t + 1 else given t) rest

/-- Whether the number is given out for the stem. -/
def Numbers (given : String → Nat) (stems : List String) (s : String) (n : Nat) : Prop :=
  given s < n ∧ n ≤ given s + stems.count s

/-- No two stems are written the same with numbers that are given out for them. -/
def Apart (given : String → Nat) (stems : List String) : Prop :=
  ∀ s t n m, Numbers given stems s n → Numbers given stems t m → named s n = named t m → s = t

theorem count_increment (given : Placeholders) (stem other : String) :
    (given.increment stem).count other =
      if other = stem then given.count other + 1 else given.count other := by
  unfold count
  induction given with
  | nil =>
    rw [increment, lookup_cons_eq_ite]
    split <;> rfl
  | cons first rest ih =>
    obtain ⟨name, n⟩ := first
    rw [increment]
    by_cases here : name = stem
    · rw [if_pos here, here, lookup_cons_eq_ite, lookup_cons_eq_ite]
      split <;> rfl
    · rw [if_neg here, lookup_cons_eq_ite, lookup_cons_eq_ite]
      by_cases same : other = name
      · rw [if_pos same, if_pos same, same, if_neg here]
      · rw [if_neg same, if_neg same, ih]

theorem named_injective {s : String} {n m : Nat} (same : named s n = named s m) : n = m := by
  have digits : (toString n).toList = (toString m).toList := by
    have lists := congrArg String.toList same
    simpa [named] using lists
  have reprs : Nat.repr n = Nat.repr m := String.toList_inj.mp digits
  have values := congrArg (fun text => Nat.ofDigitChars 10 text.toList 0) reprs
  simpa [Nat.toList_repr, Nat.ofDigitChars_ten_toDigits] using values

theorem numberFrom_append (given : String → Nat) (ss ts : List String) :
    numberFrom given (ss ++ ts) =
      numberFrom given ss ++ numberFrom (fun t => given t + ss.count t) ts := by
  induction ss generalizing given with
  | nil => rfl
  | cons s ss ih =>
    rw [List.cons_append, numberFrom, numberFrom, ih, List.cons_append]
    congr 2
    congr 1
    funext t
    by_cases same : t = s
    · rw [if_pos same, same, List.count_cons_self]
      omega
    · rw [if_neg same, List.count_cons_of_ne (Ne.symm same)]

theorem numbers_cons {given : String → Nat} {s : String} {rest : List String} {t : String}
    {n : Nat} : Numbers given (s :: rest) t n ↔ (t = s ∧ n = given s + 1) ∨
      Numbers (fun t => if t = s then given t + 1 else given t) rest t n := by
  by_cases same : t = s
  · subst same
    simp only [Numbers, if_pos, List.count_cons_self, true_and]
    omega
  · have here : ¬ (t = s ∧ n = given s + 1) := fun both => same both.1
    simp only [Numbers, if_neg same, List.count_cons_of_ne (Ne.symm same), here, false_or]

theorem mem_numberFrom {given : String → Nat} {stems : List String} {text : String} :
    text ∈ numberFrom given stems ↔ ∃ s n, Numbers given stems s n ∧ text = named s n := by
  induction stems generalizing given with
  | nil =>
    simp only [numberFrom, List.not_mem_nil, Numbers, List.count_nil, false_iff]
    rintro ⟨s, n, range, -⟩
    omega
  | cons s rest ih =>
    rw [numberFrom, List.mem_cons, ih]
    constructor
    · rintro (rfl | ⟨t, n, numbers, rfl⟩)
      · exact ⟨s, given s + 1, numbers_cons.mpr (.inl ⟨rfl, rfl⟩), rfl⟩
      · exact ⟨t, n, numbers_cons.mpr (.inr numbers), rfl⟩
    · rintro ⟨t, n, numbers, rfl⟩
      rcases numbers_cons.mp numbers with ⟨rfl, rfl⟩ | numbers
      · exact .inl rfl
      · exact .inr ⟨t, n, numbers, rfl⟩

/-- Placeholders repeat exactly when two stems are written the same with their numbers: those of one
stem have different numbers. -/
theorem nodup_numberFrom_iff {given : String → Nat} {stems : List String} :
    (numberFrom given stems).Nodup ↔ Apart given stems := by
  induction stems generalizing given with
  | nil =>
    refine ⟨fun _ s t n m numbers => ?_, fun _ => List.nodup_nil⟩
    simp only [Numbers, List.count_nil] at numbers
    omega
  | cons s rest ih =>
    -- the number that goes to the first stem is not given to it again
    have later : ¬ Numbers (fun t => if t = s then given t + 1 else given t) rest s
        (given s + 1) := by
      simp only [Numbers, if_pos]
      omega
    rw [numberFrom, List.nodup_cons, ih, mem_numberFrom]
    constructor
    · rintro ⟨fresh, apart⟩ a b n m first second same
      rcases numbers_cons.mp first with ⟨rfl, rfl⟩ | first
      · rcases numbers_cons.mp second with ⟨rfl, rfl⟩ | second
        · rfl
        · exact absurd ⟨b, m, second, same⟩ fresh
      · rcases numbers_cons.mp second with ⟨rfl, rfl⟩ | second
        · exact absurd ⟨a, n, first, same.symm⟩ fresh
        · exact apart a b n m first second same
    · intro apart
      refine ⟨?_, fun a b n m first second => ?_⟩
      · rintro ⟨t, n, numbers, same⟩
        have equal : s = t := apart s t (given s + 1) n
          (numbers_cons.mpr (.inl ⟨rfl, rfl⟩)) (numbers_cons.mpr (.inr numbers)) same
        subst equal
        rw [← named_injective same] at numbers
        exact later numbers
      · exact apart a b n m (numbers_cons.mpr (.inr first)) (numbers_cons.mpr (.inr second))

theorem digit_of_longer {s t : String} {n m : Nat} {more : List Char} (present : more ≠ [])
    (longer : t.toList = s.toList ++ more) (same : named s n = named t m) :
    ∃ c ∈ t.toList.getLast?, c.isDigit = true := by
  have lists : s.toList ++ Nat.toDigits 10 n = s.toList ++ (more ++ Nat.toDigits 10 m) := by
    have whole := congrArg String.toList same
    simpa [named, longer, Nat.toList_repr] using whole
  have digits : Nat.toDigits 10 n = more ++ Nat.toDigits 10 m := List.append_cancel_left lists
  refine ⟨more.getLast present, ?_, ?_⟩
  · rw [longer, List.getLast?_append, List.getLast?_eq_some_getLast present]
    rfl
  · refine Nat.isDigit_of_mem_toDigits (b := 10) (n := n) (by decide) (by decide) ?_
    rw [digits]
    exact List.mem_append_left _ (List.getLast_mem present)

theorem apart_of_letters {given : String → Nat} {stems : List String}
    (letters : ∀ s ∈ stems, ∀ c ∈ s.toList.getLast?, c.isDigit = false) : Apart given stems := by
  have inside {s : String} {n : Nat} (numbers : Numbers given stems s n) : s ∈ stems := by
    refine List.count_pos_iff.mp ?_
    have := numbers.1
    have := numbers.2
    omega
  have equal {s t : String} {n m : Nat} (there : t ∈ stems) (same : named s n = named t m)
      {more : List Char} (longer : t.toList = s.toList ++ more) : s = t := by
    by_cases present : more = []
    · rw [present, List.append_nil] at longer
      exact (String.toList_inj.mp longer).symm
    · obtain ⟨c, last, digit⟩ := digit_of_longer present longer same
      rw [letters t there c last] at digit
      cases digit
  intro s t n m first second same
  have lists : s.toList ++ Nat.toDigits 10 n = t.toList ++ Nat.toDigits 10 m := by
    have whole := congrArg String.toList same
    simpa [named, Nat.toList_repr] using whole
  rcases List.append_eq_append_iff.mp lists with ⟨more, longer, -⟩ | ⟨more, longer, -⟩
  · exact equal (inside second) same longer
  · exact (equal (inside first) same.symm longer).symm

end Placeholders

namespace DocumentQuery

/-- A computation that binds values for fields of these stems, in this order. -/
def Binds {α : Type} (m : StateM Bindings α) (stems : List String) : Prop :=
  ∀ b, (m.run b).2.bound.map BoundParam.placeholder =
      b.bound.map BoundParam.placeholder ++ Placeholders.numberFrom b.given.count stems ∧
    ∀ s, (m.run b).2.given.count s = b.given.count s + stems.count s

theorem binds_pure {α : Type} (a : α) : Binds (pure a : StateM Bindings α) [] :=
  fun _ => ⟨(List.append_nil _).symm, fun _ => rfl⟩

theorem Binds.bind {α β : Type} {m : StateM Bindings α} {next : α → StateM Bindings β}
    {ss ts : List String} (first : Binds m ss) (second : ∀ a, Binds (next a) ts) :
    Binds (m >>= next) (ss ++ ts) := by
  intro b
  obtain ⟨names, counts⟩ := first b
  obtain ⟨names', counts'⟩ := second (m.run b).1 (m.run b).2
  have between : (m.run b).2.given.count = fun s => b.given.count s + ss.count s := funext counts
  rw [between] at names'
  refine ⟨?_, fun s => ?_⟩
  · rw [Placeholders.numberFrom_append, ← List.append_assoc, ← names]
    exact names'
  · rw [List.count_append, ← Nat.add_assoc, ← counts s]
    exact counts' s

theorem Binds.map {α β : Type} {m : StateM Bindings α} {ss : List String} (binds : Binds m ss)
    (write : α → β) : Binds (do return write (← m)) ss := by
  have whole := binds.bind fun a => binds_pure (write a)
  rwa [List.append_nil] at whole

theorem binds_bind (field : String) (v : Value) :
    Binds (bind field v) [Placeholders.stem field] := by
  intro b
  refine ⟨?_, fun s => ?_⟩
  · change (b.bound ++ [_]).map BoundParam.placeholder = _
    rw [List.map_append]
    rfl
  · change (b.given.increment (Placeholders.stem field)).count s = _
    rw [Placeholders.count_increment, List.count_singleton]
    by_cases same : s = Placeholders.stem field
    · simp [same]
    · simp [same, Ne.symm same]

theorem binds_operandText (field : String) (x : Coerced) :
    Binds (operandText field x)
      (List.replicate ([x].countP Coerced.isBound) (Placeholders.stem field)) := by
  cases x with
  | value v => exact binds_bind field v
  | native raw => exact binds_pure raw

theorem binds_operands (field : String) (operands : List Coerced) :
    Binds (operands.mapM (operandText field))
      (List.replicate (operands.countP Coerced.isBound) (Placeholders.stem field)) := by
  induction operands with
  | nil => exact binds_pure []
  | cons x operands ih =>
    have whole := (binds_operandText field x).bind fun text => ih.map fun texts => text :: texts
    rw [List.replicate_append_replicate, ← List.countP_append] at whole
    rw [List.mapM_cons]
    exact whole

theorem binds_conditionText (collection field : String) (condition : Condition) :
    Binds (conditionText collection field condition)
      (List.replicate condition.bindings (Placeholders.stem field)) := by
  cases condition with
  | compare c operand => exact (binds_operandText field operand).map _
  | oneOf operands => exact (binds_operands field operands).map _
  | exactly text => exact (binds_bind field _).map _
  | between lower upper =>
    cases upper with
    | none => exact (binds_bind field _).map _
    | some upper => exact (binds_bind field _).bind fun low => (binds_bind field _).map _
  | nullCheck present => exact binds_pure _

mutual

theorem binds_planText (collection : String) : ∀ p : Plan, Binds (planText collection p) p.stems
  | .test field condition negated => by
    rw [planText, Plan.stems]
    exact (binds_conditionText collection field condition).map _
  | .negate p => by
    rw [planText, Plan.stems]
    exact (binds_planText collection p).map _
  | .all children => by
    rw [planText, Plan.stems]
    exact (binds_childTexts collection children).map _
  | .any children => by
    rw [planText, Plan.stems]
    exact (binds_childTexts collection children).map _

theorem binds_childTexts (collection : String) :
    ∀ ps : List Plan, Binds (childTexts collection ps) (Plan.stemsAll ps)
  | [] => by
    rw [childTexts, Plan.stemsAll]
    exact binds_pure []
  | p :: rest => by
    rw [childTexts, Plan.stemsAll]
    exact (binds_planText collection p).bind fun t => (binds_childTexts collection rest).map _

end

namespace Compiler

theorem plan_of_compile {compiler : Compiler} {f : Filter} {native : CompiledFilter}
    (compiled : compiler.compile f = .ok native) :
    ∃ p, Scope.plan ⟨.document, compiler.fields, compiler.params⟩ f = .ok p ∧
      native = ⟨((planText compiler.collection p).run .none).1,
        ((planText compiler.collection p).run .none).2.bound⟩ := by
  unfold compile at compiled
  cases planned : Scope.plan ⟨.document, compiler.fields, compiler.params⟩ f with
  | error fault =>
    rw [planned] at compiled
    cases compiled
  | ok p =>
    rw [planned] at compiled
    cases compiled
    exact ⟨p, rfl, rfl⟩

/-- The stems of the fields that values are bound for when the filter is compiled. -/
def stems (compiler : Compiler) (f : Filter) : List String :=
  match Scope.plan ⟨.document, compiler.fields, compiler.params⟩ f with
  | .ok p => p.stems
  | .error _ => []

theorem placeholders_eq {compiler : Compiler} {f : Filter} {native : CompiledFilter}
    (compiled : compiler.compile f = .ok native) :
    native.params.map BoundParam.placeholder =
      Placeholders.numberFrom (fun _ => 0) (compiler.stems f) := by
  obtain ⟨p, planned, rfl⟩ := plan_of_compile compiled
  rw [stems, planned]
  exact (binds_planText compiler.collection p .none).1

theorem placeholders_nodup_of_letters {compiler : Compiler} {f : Filter} {native : CompiledFilter}
    (compiled : compiler.compile f = .ok native)
    (letters : ∀ s ∈ compiler.stems f, ∀ c ∈ s.toList.getLast?, c.isDigit = false) :
    (native.params.map BoundParam.placeholder).Nodup := by
  rw [placeholders_eq compiled]
  exact Placeholders.nodup_numberFrom_iff.mpr (Placeholders.apart_of_letters letters)

end Compiler

/-- The placeholders of a compiled filter are distinct exactly when no two stems that it binds values
for are written the same with their numbers, and then every value is found by its placeholder. -/
theorem bound_values_kept_iff (compiler : Compiler) {f : Filter} {native : CompiledFilter}
    (compiled : compiler.compile f = .ok native) :
    ((native.params.map BoundParam.placeholder).Nodup ↔
      Placeholders.Apart (fun _ => 0) (compiler.stems f)) ∧
    (Placeholders.Apart (fun _ => 0) (compiler.stems f) → ∀ limit, ∀ p ∈ native.params,
      (NativeQuery.paramsByName ⟨native.text, native.params, limit⟩).get? p.placeholder =
        some p.value) := by
  have distinct : (native.params.map BoundParam.placeholder).Nodup ↔
      Placeholders.Apart (fun _ => 0) (compiler.stems f) := by
    rw [Compiler.placeholders_eq compiled]
    exact Placeholders.nodup_numberFrom_iff
  refine ⟨distinct, fun apart limit p member => ?_⟩
  have keys : (native.params.map fun q => (q.placeholder, q.value)).map Prod.fst =
      native.params.map BoundParam.placeholder := by
    simp
  have names := distinct.mpr apart
  rw [← keys] at names
  exact Record.get?_ofMembers_of_mem names (List.mem_map_of_mem member)

/-- A filter with a list of `count` values for one field, and one value for a field of the same name
with a digit behind it. -/
def listAndNumbered (count : Nat) : Filter :=
  .combine .and [.test ⟨"a", .oneOf, .list ((List.range count).map fun i =>
    .literal (toString (i + 1))), false⟩, .test ⟨"a1", .compare .eq, .literal "2", false⟩]

def openDocuments : Compiler := ⟨"t", FieldMap.openFor .document, []⟩

/-- Two values for `a` and one for `a1`. -/
theorem bound_values_kept_of_two :
    ∃ native, openDocuments.compile (listAndNumbered 2) = .ok native ∧
      native.params.map BoundParam.placeholder = ["@a1", "@a2", "@a11"] ∧
      ∀ limit, ∀ p ∈ native.params,
        (NativeQuery.paramsByName ⟨native.text, native.params, limit⟩).get? p.placeholder =
          some p.value := by
  have compiled : openDocuments.compile (listAndNumbered 2) =
      .ok ⟨"t.a IN (@a1, @a2) AND t.a1 = @a11",
        [⟨"@a1", .int 1⟩, ⟨"@a2", .int 2⟩, ⟨"@a11", .int 2⟩]⟩ := rfl
  have kept := bound_values_kept_iff openDocuments compiled
  exact ⟨_, compiled, rfl, kept.2 (kept.1.mp (by decide))⟩

/-- The eleventh value for `a` has the placeholder of the first one for `a1`, and one of them is
lost. -/
theorem eleventh_value_lost :
    Filter.parse [] "a in (1, 2, 3, 4, 5, 6, 7, 8, 9, 10, 11) and a1 = 2" =
      .ok (some (listAndNumbered 11)) ∧
    ∃ native, openDocuments.compile (listAndNumbered 11) = .ok native ∧
      ¬ (native.params.map BoundParam.placeholder).Nodup ∧
      (NativeQuery.paramsByName ⟨native.text, native.params, none⟩).length <
        native.params.length := by
  refine ⟨by decide +kernel, ?_⟩
  have lost : (openDocuments.compile (listAndNumbered 11)).toOption.any (fun native =>
      !decide (native.params.map BoundParam.placeholder).Nodup &&
        (NativeQuery.paramsByName ⟨native.text, native.params, none⟩).length <
          native.params.length) = true := by
    decide +kernel
  cases compiled : openDocuments.compile (listAndNumbered 11) with
  | error fault =>
    rw [compiled] at lost
    cases lost
  | ok native =>
    rw [compiled] at lost
    exact ⟨native, rfl, by simpa [Except.toOption] using lost⟩

end DocumentQuery

end StoreGateway

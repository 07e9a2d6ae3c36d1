import StoreGateway.Compile.Document
import StoreGateway.Proofs.KeyLists

/-!
The normal form of filters that are read, and the faults that it leaves no room for. Main statement:
every filter read from text has it, so that neither a compiler nor the evaluation of a filter meets a
negation of nothing, a comparison without its value, or a list where none belongs.
-/

namespace StoreGateway

namespace Filter

/-- The connective that a filter combines others by. -/
def connective? : Filter → Option Connective
  | .test _ => none
  | .combine op _ => some op

/-- Chains have several children, none of them a chain of the same connective; a negation has one
child, and all comparisons are as demanded. -/
inductive Normal (demand : Comparison → Prop) : Filter → Prop
  | test {c : Comparison} (formed : demand c) : Normal demand (.test c)
  | negation {f : Filter} (normal : Normal demand f) : Normal demand (.combine .not [f])
  | chain {op : Connective} {children : List Filter} (is : op ≠ .not)
      (several : 2 ≤ children.length) (apart : ∀ f ∈ children, f.connective? ≠ some op)
      (normal : ∀ f ∈ children, Normal demand f) : Normal demand (.combine op children)

variable {demand : Comparison → Prop}

theorem Normal.and {P Q : Comparison → Prop} {f : Filter} (normal : Normal P f)
    (all : ∀ c ∈ f.comparisons, Q c) : Normal (fun c => P c ∧ Q c) f := by
  induction normal with
  | @test c formed => exact .test ⟨formed, all c List.mem_cons_self⟩
  | negation _ ih =>
    exact .negation (ih fun c member => all c (mem_comparisonsAll List.mem_cons_self member))
  | chain is several apart _ ih =>
    exact .chain is several apart fun f member =>
      ih f member fun c inside => all c (mem_comparisonsAll member inside)

theorem Normal.imp {P Q : Comparison → Prop} {f : Filter} (normal : Normal P f)
    (weaker : ∀ c, P c → Q c) : Normal Q f := by
  induction normal with
  | test formed => exact .test (weaker _ formed)
  | negation _ ih => exact .negation ih
  | chain is several apart _ ih => exact .chain is several apart ih

theorem Normal.operandsOf {op : Connective} {f : Filter} (normal : Normal demand f)
    (is : op ≠ .not) : f.operandsOf op ≠ [] ∧
      ∀ g ∈ f.operandsOf op, Normal demand g ∧ g.connective? ≠ some op := by
  have alone (other : f.connective? ≠ some op) :
      [f] ≠ [] ∧ ∀ g ∈ [f], Normal demand g ∧ g.connective? ≠ some op := by
    refine ⟨List.cons_ne_nil _ _, fun g member => ?_⟩
    rw [List.mem_singleton.mp member]
    exact ⟨normal, other⟩
  cases f with
  | test c => exact alone nofun
  | combine inner children =>
    by_cases same : inner = op
    · rw [Filter.operandsOf, if_pos same]
      subst same
      cases normal with
      | negation normal => exact absurd rfl is
      | chain _ several apart normal =>
        refine ⟨fun empty => ?_, fun g member => ⟨normal g member, apart g member⟩⟩
        rw [empty] at several
        cases several
    · rw [Filter.operandsOf, if_neg same]
      exact alone fun other => same (Option.some.inj other)

theorem Normal.join {op : Connective} {left right : Filter} (is : op ≠ .not)
    (first : Normal demand left) (second : Normal demand right) :
    Normal demand (join op left right) := by
  obtain ⟨present, front⟩ := first.operandsOf is
  obtain ⟨present', back⟩ := second.operandsOf is
  have each : ∀ f ∈ left.operandsOf op ++ right.operandsOf op,
      Normal demand f ∧ f.connective? ≠ some op := fun f member =>
    (List.mem_append.mp member).elim (front f) (back f)
  refine .chain is ?_ (fun f member => (each f member).2) fun f member => (each f member).1
  have here := List.length_pos_iff.mpr present
  have there := List.length_pos_iff.mpr present'
  rw [List.length_append]
  omega

theorem normal_joined {t : Token} {joined : Filter → Filter → Filter} {left right : Filter}
    (is : orJoiner? t = some joined) (first : Normal demand left) (second : Normal demand right) :
    Normal demand (joined left right) := by
  unfold orJoiner? at is
  split at is
  · cases is
    exact first.join (by decide) second
  · split at is
    · cases is
      exact .negation (first.join (by decide) second)
    · cases is

/-- Every rule of the grammar gives a filter in normal form, whatever its comparisons are. -/
theorem Derives.normal {source : Source} {rank : Rank} {ts rest : List Token} {f : Filter}
    (derives : Derives source rank ts f rest)
    (left : ∀ g ∈ rank.left?, Normal (fun _ => True) g) : Normal (fun _ => True) f := by
  induction derives with
  | or _ _ ih ih' =>
    refine ih' fun g member => ?_
    cases member
    exact ih nofun
  | orEnd _ => exact left _ rfl
  | @orMore _ _ _ _ before _ _ _ is _ _ ih ih' =>
    refine ih' fun g member => ?_
    cases member
    exact normal_joined is (left before rfl) (ih nofun)
  | and _ _ ih ih' =>
    refine ih' fun g member => ?_
    cases member
    exact ih nofun
  | andEnd _ => exact left _ rfl
  | @andMore _ _ _ _ before _ _ _ _ _ ih ih' =>
    refine ih' fun g member => ?_
    cases member
    exact (left before rfl).join (by decide) (ih nofun)
  | negation _ _ ih => exact .negation (ih nofun)
  | plain _ _ ih => exact ih nofun
  | group _ _ _ ih => exact ih nofun
  | comparison _ _ => exact .test trivial

theorem normal_of_parse {params : Params} {f : Filter} {s : String}
    (parsed : parse params s = .ok (some f)) : Normal Comparison.Formed f := by
  obtain ⟨-, all, -, derives⟩ := parse_eq_ok_iff.mp parsed
  exact ((derives.normal nofun).and (formed_of_parse parsed).each).imp fun _ both => both.2

end Filter

/-- What a computation fails with, if it fails, is as described. -/
def FaultsAre {ε α : Type} (P : ε → Prop) : Except ε α → Prop
  | .ok _ => True
  | .error e => P e

namespace FaultsAre

variable {ε α β : Type} {P : ε → Prop}

theorem of_error {x : Except ε α} {e : ε} (are : FaultsAre P x) (failed : x = .error e) : P e := by
  rwa [failed] at are

theorem pure (a : α) : FaultsAre P (Pure.pure a : Except ε α) := trivial

theorem bind {x : Except ε α} {next : α → Except ε β} (first : FaultsAre P x)
    (later : ∀ a, FaultsAre P (next a)) : FaultsAre P (x >>= next) := by
  cases x with
  | ok a => exact later a
  | error e => exact first

theorem mapM {f : α → Except ε β} {xs : List α} (each : ∀ x ∈ xs, FaultsAre P (f x)) :
    FaultsAre P (xs.mapM f) := by
  induction xs with
  | nil => exact .pure []
  | cons x xs ih =>
    rw [List.mapM_cons]
    exact (each x List.mem_cons_self).bind fun _ =>
      (ih fun other member => each other (List.mem_cons_of_mem x member)).bind fun _ => .pure _

end FaultsAre

theorem Filter.Formed.holdsBy_faults {P : EvalFault → Prop} {demand : Comparison → Prop}
    {leaf : Comparison → Except EvalFault Bool} {f : Filter} (formed : Formed demand f)
    (each : ∀ c, demand c → FaultsAre P (leaf c)) : FaultsAre P (f.holdsBy leaf) := by
  induction formed with
  | test formed => exact each _ formed
  | negation _ ih =>
    rw [holdsBy]
    exact ih.bind fun _ => .pure _
  | @chain op children is _ _ ih =>
    have both (fs : List Filter) (inside : ∀ f ∈ fs, FaultsAre P (f.holdsBy leaf)) :
        FaultsAre P (allHoldBy leaf fs) ∧ FaultsAre P (anyHoldsBy leaf fs) := by
      induction fs with
      | nil => exact ⟨trivial, trivial⟩
      | cons f fs ih =>
        have first := inside f List.mem_cons_self
        obtain ⟨all, any⟩ := ih fun g member => inside g (List.mem_cons_of_mem f member)
        rw [allHoldBy, anyHoldsBy]
        refine ⟨first.bind fun b => ?_, first.bind fun b => ?_⟩
        · cases b with
          | true => exact all
          | false => exact .pure false
        · cases b with
          | true => exact .pure true
          | false => exact any
    cases op with
    | not => exact absurd rfl is
    | and => exact (both children ih).1
    | or => exact (both children ih).2

mutual

theorem Operand.evaluate_faults (params : Params) :
    ∀ o : Operand, FaultsAre (· ≠ .emptyNegation) (o.evaluate params)
  | .absent => trivial
  | .literal _ => trivial
  | .param name => by
    rw [Operand.evaluate]
    split
    · exact trivial
    · exact nofun
  | .call _ => nofun
  | .list items => by
    rw [Operand.evaluate]
    exact (Operand.evaluateAll_faults params items).bind fun _ => .pure _

theorem Operand.evaluateAll_faults (params : Params) :
    ∀ items : List Operand, FaultsAre (· ≠ .emptyNegation) (Operand.evaluateAll params items)
  | [] => trivial
  | o :: items => by
    rw [Operand.evaluateAll]
    exact (Operand.evaluate_faults params o).bind fun _ =>
      (Operand.evaluateAll_faults params items).bind fun _ => .pure _

end

theorem Comparison.holds_faults (c : Comparison) (params : Params) (qualifier : Option String)
    (r : Record) : FaultsAre (· ≠ .emptyNegation) (c.holds params qualifier r) :=
  (c.operand.evaluate_faults params).bind fun _ => .pure _

/-- The faults of filters that are in no normal form. -/
def CompileFault.OfShape : CompileFault → Prop
  | .filter .emptyNegation => True
  | .filter .bareList => True
  | .filter (.listOutsideIn _) => True
  | .value _ .missing => True
  | _ => False

theorem mismatch_fault {field : Field} {text : String} {expected : Expected} {fault : ValueFault}
    (refused : mismatch field text expected = .error fault) :
    fault = .mismatch text expected := by
  unfold mismatch at refused
  split at refused
  · cases refused
    rfl
  · cases refused

theorem conform_fault {field : Field} {v : Value} {fault : ValueFault}
    (refused : conform field v = .error fault) : ∃ text expected, fault = .mismatch text expected := by
  unfold conform at refused
  split at refused
  · split at refused
    · cases refused
    · exact ⟨_, _, mismatch_fault refused⟩
  · split at refused
    · exact ⟨_, _, mismatch_fault refused⟩
    · cases refused
  · split at refused
    · cases refused
    · exact ⟨_, _, mismatch_fault refused⟩
  · split at refused
    · cases refused
    · exact ⟨_, _, mismatch_fault refused⟩
  all_goals cases refused

variable {scope : Scope} {field : Field}

theorem Operand.coerce_faults {params : Params} {o : Operand} (single : o.IsSingle) :
    FaultsAre (¬ CompileFault.OfShape ·) (o.coerce params field) := by
  cases coerced : o.coerce params field with
  | ok x => exact trivial
  | error fault =>
    cases Operand.coerces_of_coerce coerced with
    | unknown other missing =>
      cases o with
      | absent => exact single.elim
      | list items => exact single.elim
      | call raw => exact absurd rfl (other raw)
      | literal raw => cases missing
      | param name =>
        cases found : params.lookup? name with
        | some v =>
          simp only [value?, found] at missing
          cases missing
        | none =>
          simp only [value?, found] at missing
          cases missing
          exact id
    | refused _ refused =>
      obtain ⟨text, expected, rfl⟩ := conform_fault refused
      exact id

theorem Scope.resolve_faults (name : String) :
    FaultsAre (¬ CompileFault.OfShape ·) (scope.resolve name) := by
  unfold Scope.resolve FieldMap.resolve
  split
  · exact trivial
  · next unknown =>
    split at unknown
    · cases unknown
    · split at unknown
      · cases unknown
      · cases unknown
        exact id

theorem patternCondition_faults (name : String) (v : Value) :
    FaultsAre (¬ CompileFault.OfShape ·) (patternCondition name v) := by
  unfold patternCondition
  split
  · split
    · exact trivial
    · exact trivial
    · exact id
  · exact id

theorem Scope.condition_faults {c : Comparison} (formed : c.Formed) :
    FaultsAre (¬ CompileFault.OfShape ·) (scope.condition field c.relation c.operand) := by
  rcases c with ⟨name, relation, operand, negated⟩
  cases relation with
  | compare k => exact (Operand.coerce_faults (formed.single rfl rfl)).bind fun _ => .pure _
  | oneOf =>
    obtain ⟨item, items, rfl, single⟩ := formed.list rfl
    exact (FaultsAre.mapM fun o member => Operand.coerce_faults (single o member)).bind
      fun _ => .pure _
  | like =>
    refine (Operand.coerce_faults (formed.single rfl rfl)).bind fun x => ?_
    cases x with
    | value v => exact patternCondition_faults field.name v
    | native raw => exact id
  | isNull | isNotNull =>
    rw [Scope.condition]
    split
    · exact id
    · exact trivial

theorem Scope.planTest_faults {c : Comparison} (formed : c.Formed) :
    FaultsAre (¬ CompileFault.OfShape ·) (scope.planTest c) :=
  (Scope.resolve_faults c.field).bind fun _ => (Scope.condition_faults formed).bind fun _ => .pure _

theorem Scope.plan_faults {f : Filter} (formed : Filter.Formed Comparison.Formed f) :
    FaultsAre (¬ CompileFault.OfShape ·) (scope.plan f) := by
  induction formed with
  | test formed =>
    rw [Scope.plan]
    exact Scope.planTest_faults formed
  | negation _ ih =>
    rw [Scope.plan]
    exact ih.bind fun _ => .pure _
  | @chain op children is _ _ ih =>
    have inner : FaultsAre (¬ CompileFault.OfShape ·) (scope.planAll children) := by
      rw [Scope.planAll_eq_mapM]
      exact .mapM ih
    cases op with
    | not => exact absurd rfl is
    | and | or =>
      rw [Scope.plan]
      exact inner.bind fun _ => .pure _

namespace Entity.Compiler

variable {compiler : Compiler} {f : Filter}

theorem compile_faults (formed : Filter.Formed Comparison.Formed f) :
    FaultsAre (¬ CompileFault.OfShape ·) (compiler.compile f) :=
  (Scope.plan_faults formed).bind fun _ => .pure _

theorem keyText_faults {o : Operand} (single : o.IsSingle) :
    FaultsAre (¬ CompileFault.OfShape ·) (compiler.keyText field o) := by
  refine (Operand.coerce_faults single).bind fun x => ?_
  cases x with
  | native raw => exact id
  | value v => cases v <;> exact trivial

theorem formed_idList {rows : Comparison} {other : Option Comparison}
    (formed : Filter.Formed Comparison.Formed f)
    (listed : compiler.idList? f = some (rows, other)) :
    rows.Formed ∧ ∀ test ∈ other, test.Formed := by
  have each := formed.each
  rcases idList?_cases listed with ⟨rfl, rfl⟩ | ⟨test, rfl, sides⟩
  · exact ⟨each _ List.mem_cons_self, nofun⟩
  · have both : rows.Formed ∧ test.Formed := by
      rcases sides with rfl | rfl
      · exact ⟨each _ List.mem_cons_self, each _ (List.mem_cons_of_mem _ List.mem_cons_self)⟩
      · exact ⟨each _ (List.mem_cons_of_mem _ List.mem_cons_self), each _ List.mem_cons_self⟩
    exact ⟨both.1, fun c same => Option.some.inj same ▸ both.2⟩

theorem oversizedIds_faults (formed : Filter.Formed Comparison.Formed f) :
    FaultsAre (¬ CompileFault.OfShape ·) (compiler.oversizedIds f) := by
  unfold oversizedIds
  cases shape : compiler.idList? f with
  | none => exact trivial
  | some found =>
    obtain ⟨rows, other⟩ := found
    obtain ⟨listing, beside⟩ := formed_idList formed shape
    cases oversized : compiler.isOversized rows with
    | none =>
      simp only [oversized]
      exact trivial
    | some items =>
      simp only [oversized]
      have single := (listing.items (isOversized_cases oversized).1).2
      have listed (named : Option String) :
          FaultsAre (¬ CompileFault.OfShape ·) (do
            let field ← compiler.scope.resolve rows.field
            return some (← items.mapM (compiler.keyText field), named)) :=
        (Scope.resolve_faults rows.field).bind fun _ =>
          (FaultsAre.mapM fun o member => keyText_faults (single o member)).bind fun _ => .pure _
      cases other with
      | none => exact listed none
      | some test =>
        cases is : compiler.isPartition test with
        | false =>
          simp only [is]
          exact trivial
        | true =>
          have single : test.operand.IsSingle := by
            have relation := (isPartition_cases is).2.1
            exact (beside test rfl).single (by rw [relation]; rfl) (by rw [relation]; rfl)
          simp only [is, if_true]
          exact (Scope.resolve_faults test.field).bind fun _ =>
            (keyText_faults single).bind fun key => listed (some key)

theorem compileChunks_faults (formed : Filter.Formed Comparison.Formed f) :
    FaultsAre (¬ CompileFault.OfShape ·) (compiler.compileChunks f) := by
  refine (oversizedIds_faults formed).bind fun found => ?_
  cases found with
  | some keys => exact .pure _
  | none => exact (compile_faults formed).bind fun _ => .pure _

end Entity.Compiler

theorem DocumentQuery.Compiler.compile_faults {compiler : DocumentQuery.Compiler} {f : Filter}
    (formed : Filter.Formed Comparison.Formed f) :
    FaultsAre (¬ CompileFault.OfShape ·) (compiler.compile f) :=
  (Scope.plan_faults formed).bind fun _ => .pure _

/-- Every filter read from text is in normal form, and what is in normal form is compiled and evaluated
without a fault of shape, whatever fields and parameters are at hand. -/
theorem parsed_in_normal_form {params : Params} {text : String} {f : Filter}
    (parsed : Filter.parse params text = .ok (some f)) :
    Filter.Normal Comparison.Formed f ∧
      (∀ (compiler : Entity.Compiler) (fault : CompileFault),
        compiler.compile f = .error fault ∨ compiler.compileChunks f = .error fault →
          ¬ fault.OfShape) ∧
      (∀ (compiler : DocumentQuery.Compiler) (fault : CompileFault),
        compiler.compile f = .error fault → ¬ fault.OfShape) ∧
      ∀ (bound : Params) (qualifier : Option String) (r : Record),
        f.holds bound qualifier r ≠ .error .emptyNegation := by
  have formed := Filter.formed_of_parse parsed
  refine ⟨Filter.normal_of_parse parsed, fun compiler fault failed => ?_,
    fun compiler _ failed => (DocumentQuery.Compiler.compile_faults formed).of_error failed,
    fun bound qualifier r failed => ?_⟩
  · rcases failed with failed | failed
    · exact (Entity.Compiler.compile_faults formed).of_error failed
    · exact (Entity.Compiler.compileChunks_faults formed).of_error failed
  · rw [Filter.holds_eq_holdsBy] at failed
    have faults := formed.holdsBy_faults fun c _ => c.holds_faults bound qualifier r
    exact faults.of_error failed rfl

/-- A chain that is negated as it is joined, around a list and with a negation in parentheses. -/
theorem parsed_in_normal_form_of_nor :
    let f : Filter := .combine .not [.combine .or
      [.test ⟨"a", .compare .eq, .literal "1", false⟩,
        .test ⟨"b", .oneOf, .list [.literal "2", .literal "x"], false⟩,
        .combine .and [.combine .not [.test ⟨"c", .isNull, .absent, false⟩],
          .test ⟨"d", .like, .param "p", false⟩]]]
    Filter.parse [("p", .string "x%")] "a = 1 or (b in (2, x)) nor not (c is null) and d like :p" =
        .ok (some f) ∧
      Filter.Normal Comparison.Formed f ∧
      Entity.Compiler.compile ⟨FieldMap.openFor .table, [("p", .string "x%")], 14⟩ f =
        .error (.filter (.noNullChecks .isNull "c")) ∧
      ¬ (CompileFault.filter (.noNullChecks .isNull "c")).OfShape ∧
      f.holds [("p", .string "x%")] none [("d", .int 1)] ≠ .error .emptyNegation := by
  intro f
  have parsed : Filter.parse [("p", .string "x%")]
      "a = 1 or (b in (2, x)) nor not (c is null) and d like :p" = .ok (some f) := by
    decide +kernel
  have refused : Entity.Compiler.compile ⟨FieldMap.openFor .table, [("p", .string "x%")], 14⟩ f =
      .error (.filter (.noNullChecks .isNull "c")) := rfl
  obtain ⟨normal, entity, -, evaluates⟩ := parsed_in_normal_form parsed
  exact ⟨parsed, normal, refused, entity _ _ (.inl refused), evaluates _ none _⟩

end StoreGateway

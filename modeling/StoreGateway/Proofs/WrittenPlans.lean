import StoreGateway.Proofs.DocumentMeaning

/-!
What all texts of planned document filters have in common, from what its comparisons have and what
negations, parentheses and chains keep.
-/

namespace StoreGateway.DocumentQuery

open StoreGateway.Filter

/-- Two properties of texts that the ways of putting texts together keep: one of texts that may stand
beside a connective, one of texts that may have to be put in parentheses first. -/
structure Closed (bare chain : String → Prop) : Prop where
  toChain {text : String} : bare text → chain text
  negation {text : String} : chain text → bare ("NOT (" ++ text ++ ")")
  group {text : String} : chain text → bare ("(" ++ text ++ ")")
  all {texts : List String} : texts ≠ [] → (∀ t ∈ texts, bare t) → chain (" AND ".intercalate texts)
  any {texts : List String} : texts ≠ [] → (∀ t ∈ texts, bare t) → chain (" OR ".intercalate texts)

variable {bare chain : String → Prop} {scope : Scope} {collection : String}

theorem Closed.childTexts (closed : Closed bare chain) {fs : List Filter} {ps : List Plan}
    (each : ∀ f ∈ fs, ∀ p b, scope.plan f = .ok p →
      (p.isChain = false → bare ((planText collection p).run b).1) ∧
        chain ((planText collection p).run b).1)
    (planned : scope.planAll fs = .ok ps) (b : Bindings) :
    ((childTexts collection ps).run b).1.length = fs.length ∧
      ∀ t ∈ ((childTexts collection ps).run b).1, bare t := by
  induction fs generalizing ps b with
  | nil =>
    cases planned
    rw [DocumentQuery.childTexts]
    exact ⟨rfl, fun t member => absurd member List.not_mem_nil⟩
  | cons f fs ih =>
    obtain ⟨p, others, first, rest, rfl⟩ := Scope.planAll_cons_cases planned
    let after := ((planText collection p).run b).2
    have run : ((DocumentQuery.childTexts collection (p :: others)).run b).1 =
        (if p.isChain then "(" ++ ((planText collection p).run b).1 ++ ")"
          else ((planText collection p).run b).1) ::
        ((DocumentQuery.childTexts collection others).run after).1 := by
      rw [DocumentQuery.childTexts]
      rfl
    obtain ⟨length, more⟩ := ih (fun g inside => each g (List.mem_cons_of_mem f inside)) rest after
    rw [run]
    refine ⟨congrArg Nat.succ length, fun t member => ?_⟩
    rcases List.mem_cons.mp member with rfl | member
    · obtain ⟨stands, chained⟩ := each f List.mem_cons_self p b first
      cases is : p.isChain with
      | true => exact closed.group chained
      | false => exact stands is
    · exact more t member

/-- The text of a planned filter has the properties. -/
theorem Closed.planText (closed : Closed bare chain) {demand : Comparison → Prop}
    (test : ∀ c, demand c → ∀ p b, scope.planTest c = .ok p →
      bare ((planText collection p).run b).1)
    {f : Filter} (formed : Formed demand f) : ∀ p b, scope.plan f = .ok p →
      (p.isChain = false → bare ((planText collection p).run b).1) ∧
        chain ((planText collection p).run b).1 := by
  -- the induction is on the filter, as the fields and operands of its plan are those of its
  -- comparisons
  induction formed with
  | @test c formed =>
    intro p b planned
    have written := test c formed p b planned
    exact ⟨fun _ => written, closed.toChain written⟩
  | @negation f _ ih =>
    intro p b planned
    obtain ⟨q, inner, rfl⟩ := Scope.plan_negation_cases planned
    rw [DocumentQuery.planText]
    have written := closed.negation (ih q b inner).2
    exact ⟨fun _ => written, closed.toChain written⟩
  | @chain op children is present _ ih =>
    intro p b planned
    cases op with
    | not => exact absurd rfl is
    | and =>
      obtain ⟨ps, inner, rfl⟩ := Scope.plan_all_cases planned
      obtain ⟨length, each⟩ := closed.childTexts ih inner b
      rw [DocumentQuery.planText]
      exact ⟨nofun, closed.all (ne_nil_of_length present length) each⟩
    | or =>
      obtain ⟨ps, inner, rfl⟩ := Scope.plan_any_cases planned
      obtain ⟨length, each⟩ := closed.childTexts ih inner b
      rw [DocumentQuery.planText]
      exact ⟨nofun, closed.any (ne_nil_of_length present length) each⟩

end StoreGateway.DocumentQuery

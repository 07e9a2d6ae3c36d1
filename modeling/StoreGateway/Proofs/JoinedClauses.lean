import StoreGateway.Proofs.GuardedRequests
import StoreGateway.Proofs.Pieces

/-!
The filter of a request, clause by clause. It holds of a record as its clauses do one after another:
the conditions of the service, the partition of the request and the filter of the caller.
-/

namespace StoreGateway

open StoreGateway.Filter

namespace Filter

variable {params : Params}

theorem trimChars_of_parse_none {text : String} (parsed : parse params text = .ok none) :
    Text.trimChars text.toList = [] := by
  refine Decidable.byContradiction fun present => ?_
  unfold parse at parsed
  simp only [present, if_false] at parsed
  cases tokens : tokensFrom 0 (Text.trimChars text.toList) with
  | error fault =>
    rw [tokens] at parsed
    cases parsed
  | ok ts =>
    cases found : ofTokens ⟨Text.trimChars text.toList, params⟩ ts with
    | error fault =>
      simp only [tokens, bind, Except.bind, found] at parsed
      cases parsed
    | ok f =>
      simp only [tokens, bind, Except.bind, found] at parsed
      cases parsed

theorem parse_some_of_shown {text : String} {parsed : Option Filter} {c : Char}
    (member : c ∈ text.toList) (shown : Text.isBlank c = false)
    (read : parse params text = .ok parsed) : ∃ f, parse params text = .ok (some f) := by
  cases parsed with
  | some f => exact ⟨f, read⟩
  | none =>
    obtain ⟨front, back, splits, blank, blank'⟩ := trimChars_splits text.toList
    rw [trimChars_of_parse_none read, List.append_nil] at splits
    rw [splits] at member
    rcases List.mem_append.mp member with member | member
    · rw [blank c member] at shown
      cases shown
    · rw [blank' c member] at shown
      cases shown

end Filter

theorem exists_shown_of_trim {text : String} (present : Text.trim text ≠ "") :
    ∃ c ∈ (Text.trim text).toList, Text.isBlank c = false := by
  have some : Text.trimChars text.toList ≠ [] := by
    intro empty
    rw [Text.trim, empty] at present
    exact present rfl
  obtain ⟨c, rest, whole⟩ := List.exists_cons_of_ne_nil some
  refine ⟨c, ?_, (Text.trimmed_trimChars some).head c (by rw [whole]; rfl)⟩
  rw [Text.trim, String.toList_ofList, whole]
  exact List.mem_cons_self

theorem RequestOptions.filterText_shown {o : RequestOptions} {text : String}
    (given : o.filterText = some text) : ∃ c ∈ text.toList, Text.isBlank c = false := by
  obtain ⟨trimmed, present⟩ := Option.filter_eq_some_iff.mp given
  obtain ⟨filter, -, rfl⟩ := Option.map_eq_some_iff.mp trimmed
  exact exists_shown_of_trim (of_decide_eq_true present)

theorem ServerFilters.conditionText_shown {f : ServerFilter} {text : String}
    (written : conditionText f = .ok text) : ∃ c ∈ text.toList, Text.isBlank c = false := by
  unfold conditionText at written
  split at written
  · cases written
  · next complete =>
    have whole := Except.ok.inj written
    subst whole
    obtain ⟨c, member, shown⟩ := exists_shown_of_trim (not_or.mp complete).1
    refine ⟨c, ?_, shown⟩
    simp only [String.toList_append, List.append_assoc]
    exact List.mem_append_left _ member

theorem ServerFilters.toText_cases {s : ServerFilters} {text : String}
    (written : s.toText = .ok (some text)) : ∃ (separator first : String) (rest : List String),
      s.filters.mapM conditionText = .ok (first :: rest) ∧
        text = separator.intercalate (first :: rest) := by
  unfold toText at written
  cases joined : joiner s.combiner with
  | error fault =>
    rw [joined] at written
    cases written
  | ok separator =>
    by_cases empty : s.filters = []
    · simp only [joined, bind, Except.bind, empty, if_true] at written
      cases written
    · cases conditions : s.filters.mapM conditionText with
      | error fault =>
        simp only [joined, bind, Except.bind, empty, if_false, conditions] at written
        cases written
      | ok texts =>
        simp only [joined, bind, Except.bind, empty, if_false, conditions] at written
        cases written
        obtain ⟨f, others, filters⟩ := List.exists_cons_of_ne_nil empty
        obtain ⟨condition, member, -⟩ :=
          (mapM_ok conditions).1 f (by rw [filters]; exact List.mem_cons_self)
        obtain ⟨first, rest, rfl⟩ := List.exists_cons_of_ne_nil (List.ne_nil_of_mem member)
        exact ⟨separator, first, rest, rfl, rfl⟩

theorem ServerFilters.toText_shown {s : ServerFilters} {text : String}
    (written : s.toText = .ok (some text)) : ∃ c ∈ text.toList, Text.isBlank c = false := by
  obtain ⟨separator, first, rest, conditions, rfl⟩ := toText_cases written
  obtain ⟨f, -, here⟩ := (mapM_ok conditions).2 first List.mem_cons_self
  obtain ⟨c, member, shown⟩ := conditionText_shown here
  refine ⟨c, ?_, shown⟩
  cases rest with
  | nil => rwa [String.intercalate_singleton]
  | cons second rest =>
    rw [String.intercalate_cons_cons, String.toList_append, String.toList_append]
    exact List.mem_append_left _ (List.mem_append_left _ member)

namespace Gateway

variable {σ : Type} {g : Gateway σ} {o : RequestOptions} {server : Option String}

theorem clauses_parse (rendered : g.serverClause = .ok server)
    (readable : ∀ clause ∈ server.toList ++ o.filterText.toList,
      ∃ parsed, Filter.parse o.params clause = .ok parsed) :
    ∀ clause ∈ server.toList ++ (g.partitionClause o).toList ++ o.filterText.toList,
      ∃ f, Filter.parse o.params clause = .ok (some f) := by
  intro clause member
  rw [List.append_assoc] at member
  rcases List.mem_append.mp member with conditions | member
  · obtain ⟨parsed, read⟩ := readable clause (List.mem_append_left _ conditions)
    have there := Option.mem_toList.mp conditions
    rw [there] at rendered
    unfold serverClause at rendered
    split at rendered
    · obtain ⟨c, inside, shown⟩ := ServerFilters.toText_shown rendered
      exact parse_some_of_shown inside shown read
    · cases rendered
  rcases List.mem_append.mp member with partition | caller
  · exact partitionClause_parses o.params (Option.mem_toList.mp partition)
  · obtain ⟨parsed, read⟩ := readable clause (List.mem_append_right _ caller)
    obtain ⟨c, inside, shown⟩ := RequestOptions.filterText_shown (Option.mem_toList.mp caller)
    exact parse_some_of_shown inside shown read

/-- The filter of a request evaluates on every record as its clauses do by themselves, one after
another and no further than one that does not hold. Without clauses there is no filter. -/
theorem effectiveFilter_holds_by_clauses (rendered : g.serverClause = .ok server)
    (readable : ∀ clause ∈ server.toList ++ o.filterText.toList,
      ∃ parsed, Filter.parse o.params clause = .ok parsed) :
    ∃ clauses : List Filter,
      (server.toList ++ (g.partitionClause o).toList ++ o.filterText.toList).map
          (Filter.parse o.params) = clauses.map (fun f => .ok (some f)) ∧
        (clauses = [] → g.effectiveFilter o = .ok none) ∧
        (clauses ≠ [] → ∃ text f, g.effectiveFilter o = .ok (some text) ∧
          Filter.parse o.params text = .ok (some f) ∧
            ∀ (params : Params) (qualifier : Option String) (r : Record),
              f.holds params qualifier r =
                allOf (clauses.map fun clause => clause.holds params qualifier r)) := by
  obtain ⟨clauses, texts, each⟩ := exists_pairs (clauses_parse rendered readable)
  have effective : g.effectiveFilter o = .ok (joinClauses (clauses.map Prod.fst)) := by
    unfold effectiveFilter
    rw [rendered, ← texts]
    rfl
  refine ⟨clauses.map Prod.snd, ?_, fun empty => ?_, fun present => ?_⟩
  · rw [texts, List.map_map, List.map_map]
    exact List.map_congr_left each
  · rw [effective, List.map_eq_nil_iff.mp empty]
    rfl
  · cases clauses with
    | nil => exact absurd rfl present
    | cons first more =>
      obtain ⟨text, joined, parsed⟩ := parse_joinClauses each
      refine ⟨text, _, by rw [effective, joined], parsed, fun params qualifier r => ?_⟩
      rw [holds_eq_holdsBy, holdsBy_conjoined, ← List.map_cons, allHoldBy_eq_allOf]
      exact congrArg allOf (List.map_congr_left fun f _ =>
        (holds_eq_holdsBy params qualifier r f).symm)

/-- Asks in a partition for what is compared with a parameter that no value is given for. -/
def unboundInPartition : RequestOptions :=
  { RequestOptions.none with partition := some "P", filter := some " v = @p or w = 2 " }

/-- A condition of the service that does not hold leaves a parameter of the caller unread. -/
theorem effectiveFilter_holds_by_clauses_of_owned :
    ∃ text f, (owned EntityTable.backend).effectiveFilter unboundInPartition = .ok (some text) ∧
      Filter.parse [] text = .ok (some f) ∧
      f.holds [] none [("owner", .string "you"), (partitionKey, .string "P")] = .ok false ∧
      f.holds [] none [("owner", .string "me"), (partitionKey, .string "P")] =
        .error (.unbound "p") := by
  have caller : unboundInPartition.filterText = some "v = @p or w = 2" := by decide
  have partition : (owned EntityTable.backend).partitionClause unboundInPartition =
      some "PartitionKey eq 'P'" := by decide
  have byPartition : Filter.parse [] "PartitionKey eq 'P'" =
      .ok (some (.test ⟨partitionKey, .compare .eq, .literal "'P'", false⟩)) := by decide +kernel
  have byCaller : Filter.parse [] "v = @p or w = 2" =
      .ok (some (.combine .or [.test ⟨"v", .compare .eq, .param "p", false⟩,
        .test ⟨"w", .compare .eq, .literal "2", false⟩])) := by decide +kernel
  obtain ⟨clauses, same, -, whole⟩ := effectiveFilter_holds_by_clauses (o := unboundInPartition)
    (serverClause_owned EntityTable.backend) (by
      rw [caller]
      intro clause member
      have either : clause ∈ ["owner = 'me'", "v = @p or w = 2"] := member
      rcases List.mem_cons.mp either with rfl | member
      · exact ⟨_, parse_owned⟩
      · rw [List.mem_singleton.mp member]
        exact ⟨_, byCaller⟩)
  rw [caller, partition] at same
  have read : clauses = [ownedByMe, .test ⟨partitionKey, .compare .eq, .literal "'P'", false⟩,
      .combine .or [.test ⟨"v", .compare .eq, .param "p", false⟩,
        .test ⟨"w", .compare .eq, .literal "2", false⟩]] := by
    have all : [Filter.parse [] "owner = 'me'", Filter.parse [] "PartitionKey eq 'P'",
        Filter.parse [] "v = @p or w = 2"] = clauses.map (fun f => .ok (some f)) := same
    rw [parse_owned, byPartition, byCaller] at all
    exact (List.map_inj_right fun x y same => Option.some.inj (Except.ok.inj same)).mp all.symm
  obtain ⟨text, f, effective, parsed, holds⟩ := whole (by rw [read]; exact List.cons_ne_nil _ _)
  refine ⟨text, f, effective, parsed, ?_, ?_⟩
  · rw [holds, read]
    rfl
  · rw [holds, read]
    rfl

end Gateway

end StoreGateway

import StoreGateway.Proofs.RowKeys

/-! Filters that are split because they list more row keys than one filter may have. -/

namespace StoreGateway

open StoreGateway.Filter

/-- The text of the compiled filter reads as a filter that the record satisfies. -/
def CompiledFilter.Selects (native : CompiledFilter) (r : Record) : Prop :=
  ∃ g, Filter.parse [] native.text = .ok (some g) ∧ g.holds [] none r = .ok true

theorem selects_iff_of_means {text : String} {meaning : Record → Except EvalFault Bool}
    (means : Means [] none .or text meaning) (r : Record) :
    CompiledFilter.Selects ⟨text, []⟩ r ↔ meaning r = .ok true := by
  obtain ⟨g, parses, holds⟩ := means.parse
  constructor
  · rintro ⟨g', parses', holds'⟩
    rw [parses] at parses'
    cases parses'
    rw [← holds r, holds']
  · intro holds'
    exact ⟨g, parses, by rw [holds r, holds']⟩

namespace Entity

/-- What a filter for row keys in a partition says of a record. -/
def keysHold (partition : Option String) (ids : List String) (r : Record) : Bool :=
  (partition.all fun p => Comparator.eq.holds (r.present? partitionKey) (.string p)) &&
    ids.any fun id => Comparator.eq.holds (r.present? rowKey) (.string id)

/-- A filter for row keys has no use for a partition without a name. -/
theorem means_keys (partition : Option String) {ids : List String} (any : ids ≠ []) :
    Means [] none .or (idsFilter partition ids) fun r =>
      .ok (keysHold (partition.filter (· ≠ "")) ids r) := by
  have rows (r : Record) :
      anyOf (ids.map fun id => .ok (Comparator.eq.holds (r.present? rowKey) (.string id))) =
        .ok (ids.any fun id => Comparator.eq.holds (r.present? rowKey) (.string id)) := by
    have outcomes := anyOf_ok (ids.map fun id =>
      Comparator.eq.holds (r.present? rowKey) (.string id))
    simpa [List.map_map, Function.comp_def, List.any_map] using outcomes
  cases kept : partition.filter (· ≠ "") with
  | none =>
    let items : List Phrase := ids.map fun id => (equality rowKey (Literal.quote id), fun r =>
      .ok (Comparator.eq.holds (r.present? rowKey) (.string id)))
    have each : ∀ item ∈ items, Means [] none .and item.1 item.2 := by
      intro item member
      obtain ⟨id, -, rfl⟩ := List.mem_map.mp member
      exact (means_exactly isField_rowKey id).toAnd
    have chain := means_chain_or "or" " or " (by decide) rfl rfl items
      (by simpa [items] using any) each
    have text : idsFilter partition ids = " or ".intercalate (items.map Prod.fst) := by
      rw [idsFilter, kept, List.map_map]
      rfl
    have meaning (r : Record) : anyOf (items.map fun item => item.2 r) =
        .ok (keysHold none ids r) := by
      rw [List.map_map]
      exact rows r
    rw [text]
    simp only [meaning] at chain
    exact chain
  | some p =>
    obtain ⟨same, present⟩ := Option.filter_eq_some_iff.mp kept
    subst same
    have means := (means_idsFilter (of_decide_eq_true present) any).toOr
    have both (a b : Bool) : allOf [.ok a, .ok b] = .ok (a && b) := by
      cases a <;> cases b <;> rfl
    simp only [rows, both] at means
    exact means

theorem flatten_chunks {α : Type} (size : Nat) (xs : List α) : (chunks size xs).flatten = xs := by
  induction xs using chunks.induct size with
  | case1 => rw [chunks]; rfl
  | case2 x rest ih =>
    rw [chunks, List.flatten_cons, ih, List.cons_append, List.take_append_drop]

/-- Some piece holds where the whole list does. -/
theorem keysHold_chunks (size : Nat) (partition : Option String) (ids : List String) (r : Record) :
    (∃ piece ∈ chunks size ids, keysHold partition piece r = true) ↔
      keysHold partition ids r = true := by
  have found : ids.any (fun id => Comparator.eq.holds (r.present? rowKey) (.string id)) = true ↔
      ∃ piece ∈ chunks size ids,
        piece.any (fun id => Comparator.eq.holds (r.present? rowKey) (.string id)) = true := by
    rw [← List.any_eq_true, ← List.any_flatten, flatten_chunks]
  simp only [keysHold, Bool.and_eq_true, found]
  constructor
  · rintro ⟨piece, member, here, some⟩
    exact ⟨here, piece, member, some⟩
  · rintro ⟨here, piece, member, some⟩
    exact ⟨piece, member, here, some⟩

namespace Compiler

variable {compiler : Compiler} {f : Filter}

theorem resolve_of_refersTo {c : Comparison} {name : String} {field : Field}
    (refers : compiler.refersTo c name = true)
    (resolved : compiler.scope.resolve c.field = .ok field) : field.name = name := by
  unfold refersTo at refers
  unfold Scope.resolve FieldMap.resolve scope at resolved
  cases found : compiler.fields.get? c.field with
  | some declared =>
    simp only [found] at refers resolved
    cases resolved
    exact eq_of_beq refers
  | none =>
    simp only [found] at refers resolved
    cases taken : compiler.fields.isOpen with
    | true =>
      simp only [taken, if_true] at resolved
      cases resolved
      exact eq_of_beq refers
    | false =>
      simp only [taken, Bool.false_eq_true, if_false] at resolved
      cases resolved

/-- The operands of comparisons with a key stand for texts. -/
def TextKeys (compiler : Compiler) (f : Filter) : Prop :=
  ∀ c ∈ f.comparisons, ∀ field, compiler.scope.resolve c.field = .ok field →
    field.name = rowKey ∨ field.name = partitionKey →
    ∀ o ∈ c.operand.singles, ∃ s, o.coerce compiler.params field = .ok (.value (.string s))

theorem keyText_of_text {field : Field} {o : Operand} {s id : String}
    (coerced : o.coerce compiler.params field = .ok (.value (.string s)))
    (key : compiler.keyText field o = .ok id) :
    o.coerce compiler.params field = .ok (.value (.string id)) := by
  unfold keyText at key
  rw [coerced] at key
  cases key
  exact coerced

/-- A comparison of the row key with a list of too many texts. -/
structure ListsRows (compiler : Compiler) (c : Comparison) (ids : List String) : Prop where
  relation : c.relation = .oneOf
  plain : c.negated = false
  texts : ∃ items field, c.operand = .list items ∧ compiler.maxIds < items.length ∧
    compiler.scope.resolve c.field = .ok field ∧ field.name = rowKey ∧
    items.mapM (compiler.keyText field) = .ok ids

/-- A comparison of the partition key with one text. -/
structure NamesPartition (compiler : Compiler) (c : Comparison) (p : String) : Prop where
  relation : c.relation = .compare .eq
  plain : c.negated = false
  text : ∃ field, compiler.scope.resolve c.field = .ok field ∧ field.name = partitionKey ∧
    compiler.keyText field c.operand = .ok p

/-- A filter for row keys alone, or with a comparison of the partition key on either side. -/
inductive ListsKeys (compiler : Compiler) : Filter → List String → Option String → Prop
  | alone {rows : Comparison} {ids : List String} (lists : ListsRows compiler rows ids) :
    ListsKeys compiler (.test rows) ids none
  | before {rows test : Comparison} {ids : List String} {p : String}
    (lists : ListsRows compiler rows ids) (names : NamesPartition compiler test p) :
    ListsKeys compiler (.combine .and [.test rows, .test test]) ids (some p)
  | behind {rows test : Comparison} {ids : List String} {p : String}
    (lists : ListsRows compiler rows ids) (names : NamesPartition compiler test p) :
    ListsKeys compiler (.combine .and [.test test, .test rows]) ids (some p)

theorem idList?_cases {rows : Comparison} {other : Option Comparison}
    (found : compiler.idList? f = some (rows, other)) :
    (f = .test rows ∧ other = none) ∨ ∃ test, other = some test ∧
      (f = .combine .and [.test rows, .test test] ∨
        f = .combine .and [.test test, .test rows]) := by
  unfold idList? at found
  split at found
  · cases found
    exact .inl ⟨rfl, rfl⟩
  · split at found
    · cases found
      exact .inr ⟨_, rfl, .inl rfl⟩
    · cases found
      exact .inr ⟨_, rfl, .inr rfl⟩
  · cases found

theorem isOversized_cases {rows : Comparison} {items : List Operand}
    (found : compiler.isOversized rows = some items) :
    rows.operand = .list items ∧ rows.relation = .oneOf ∧ rows.negated = false ∧
      compiler.refersTo rows rowKey = true ∧ compiler.maxIds < items.length := by
  unfold isOversized at found
  split at found
  · next operand relation negated =>
    split at found
    · next both =>
      cases found
      exact ⟨operand, relation, negated, both⟩
    · cases found
  · cases found

theorem isPartition_cases {test : Comparison} (is : compiler.isPartition test = true) :
    compiler.refersTo test partitionKey = true ∧ test.relation = .compare .eq ∧
      test.negated = false := by
  unfold isPartition at is
  simp only [Bool.and_eq_true, Bool.not_eq_true', beq_iff_eq] at is
  exact ⟨is.1.1, is.1.2, is.2⟩

theorem listed_cases {rows : Comparison} {items : List Operand} {ids : List String}
    {named partition : Option String}
    (listed : (do
      let field ← compiler.scope.resolve rows.field
      return some (← items.mapM (compiler.keyText field), named)) = .ok (some (ids, partition))) :
    named = partition ∧ ∃ field, compiler.scope.resolve rows.field = .ok field ∧
      items.mapM (compiler.keyText field) = .ok ids := by
  cases resolved : compiler.scope.resolve rows.field with
  | error fault =>
    rw [resolved] at listed
    cases listed
  | ok field =>
    cases keys : items.mapM (compiler.keyText field) with
    | error fault =>
      simp only [resolved, bind, Except.bind, keys] at listed
      cases listed
    | ok found =>
      simp only [resolved, bind, Except.bind, keys] at listed
      cases listed
      exact ⟨rfl, field, rfl, keys⟩

/-- What is split is a filter for row keys. -/
theorem oversizedIds_cases {ids : List String} {partition : Option String}
    (split : compiler.oversizedIds f = .ok (some (ids, partition))) :
    ListsKeys compiler f ids partition := by
  unfold oversizedIds at split
  cases shape : compiler.idList? f with
  | none =>
    rw [shape] at split
    cases split
  | some found =>
    obtain ⟨rows, other⟩ := found
    simp only [shape] at split
    cases oversized : compiler.isOversized rows with
    | none =>
      simp only [oversized] at split
      cases split
    | some items =>
      simp only [oversized] at split
      obtain ⟨operand, relation, plain, refers, many⟩ := isOversized_cases oversized
      have lists {field : Field} (resolved : compiler.scope.resolve rows.field = .ok field)
          (keys : items.mapM (compiler.keyText field) = .ok ids) : ListsRows compiler rows ids :=
        ⟨relation, plain, items, field, operand, many, resolved,
          resolve_of_refersTo refers resolved, keys⟩
      -- the list stands alone, or a comparison of the partition stands beside it
      rcases idList?_cases shape with ⟨rfl, rfl⟩ | ⟨test, rfl, sides⟩
      · obtain ⟨rfl, field, resolved, keys⟩ := listed_cases split
        exact .alone (lists resolved keys)
      · cases is : compiler.isPartition test with
        | false =>
          simp only [is] at split
          cases split
        | true =>
          obtain ⟨refers', relation', plain'⟩ := isPartition_cases is
          simp only [is, if_true] at split
          cases resolved' : compiler.scope.resolve test.field with
          | error fault =>
            simp only [resolved'] at split
            cases split
          | ok field' =>
            cases key : compiler.keyText field' test.operand with
            | error fault =>
              simp only [resolved', bind, Except.bind, key] at split
              cases split
            | ok p =>
              simp only [resolved', bind, Except.bind, key] at split
              obtain ⟨rfl, field, resolved, keys⟩ := listed_cases split
              have names : NamesPartition compiler test p :=
                ⟨relation', plain', field', resolved', resolve_of_refersTo refers' resolved', key⟩
              rcases sides with rfl | rfl
              · exact .before (lists resolved keys) names
              · exact .behind (lists resolved keys) names

theorem writable_of_texts {c : Comparison} {field : Field}
    (resolved : compiler.scope.resolve c.field = .ok field)
    (key : field.name = rowKey ∨ field.name = partitionKey)
    (texts : ∀ o ∈ c.operand.singles, ∃ s,
      o.coerce compiler.params field = .ok (.value (.string s))) : Writable compiler.scope c := by
  refine writable_of_values resolved ?_ fun o member => ?_
  · rcases key with name | name <;> rw [name] <;> decide
  · obtain ⟨s, coerced⟩ := texts o member
    exact ⟨.string s, coerced, trivial, rfl⟩

theorem coercedValues_of_keys {field : Field} {items : List Operand} {ids : List String}
    (texts : ∀ o ∈ items, ∃ s, o.coerce compiler.params field = .ok (.value (.string s)))
    (keys : items.mapM (compiler.keyText field) = .ok ids) :
    Operand.coercedValues compiler.params field items = .ok (ids.map .string) := by
  induction items generalizing ids with
  | nil =>
    cases keys
    rfl
  | cons o items ih =>
    obtain ⟨id, others, first, rest, rfl⟩ := mapM_cons_ok keys
    obtain ⟨s, coerced⟩ := texts o List.mem_cons_self
    have here : o.coercedValue compiler.params field = .ok (.string id) := by
      rw [Operand.coercedValue, keyText_of_text coerced first]
    rw [Operand.coercedValues, here,
      ih (fun o member => texts o (List.mem_cons_of_mem _ member)) rest]
    rfl

theorem ListsRows.testHolds {c : Comparison} {ids : List String}
    (lists : ListsRows compiler c ids) (texts : TextKeys compiler (.test c)) (r : Record) :
    compiler.scope.testHolds r c =
      .ok (ids.any fun id => Comparator.eq.holds (r.present? rowKey) (.string id)) := by
  obtain ⟨items, field, operand, -, resolved, name, keys⟩ := lists.texts
  have each := texts c List.mem_cons_self field resolved (.inl name)
  rw [operand] at each
  have values : c.operand.coerced compiler.scope.params field =
      .ok (.array (ids.map .string)) := by
    have all : Operand.coercedValues compiler.scope.params field items =
        .ok (ids.map .string) := coercedValues_of_keys each keys
    rw [operand, Operand.coerced, all]
    rfl
  have contrast : ∀ v ∈ ids.map Value.string, Contrasts (r.present? rowKey) v := by
    intro v member
    obtain ⟨id, -, rfl⟩ := List.mem_map.mp member
    exact .inl rfl
  have any := any_equalities contrast
  rw [Scope.testHolds_of_resolved resolved, values, lists.relation, lists.plain, name]
  simp only [Except.map, Relation.holdsCoerced, ← any, Bool.bne_false]
  rw [List.map_map, List.any_map]
  rfl

theorem NamesPartition.testHolds {c : Comparison} {p : String}
    (names : NamesPartition compiler c p) (formed : c.Formed)
    (texts : TextKeys compiler (.test c)) (r : Record) :
    compiler.scope.testHolds r c =
      .ok (Comparator.eq.holds (r.present? partitionKey) (.string p)) := by
  obtain ⟨field, resolved, name, key⟩ := names.text
  have single : c.operand.IsSingle :=
    formed.single (by rw [names.relation]; rfl) (by rw [names.relation]; rfl)
  obtain ⟨alone, singles⟩ := Operand.coerced_of_single compiler.params field single
  obtain ⟨s, coerced⟩ := texts c List.mem_cons_self field resolved (.inr name) c.operand
    (by rw [singles]; exact List.mem_cons_self)
  have value : c.operand.coerced compiler.scope.params field = .ok (.string p) := by
    rw [show compiler.scope.params = compiler.params from rfl, alone, Operand.coercedValue,
      keyText_of_text coerced key]
  rw [Scope.testHolds_of_resolved resolved, value, names.relation, names.plain, name]
  simp only [Except.map, Relation.holdsCoerced, Relation.holds, Bool.bne_false]

theorem ListsRows.writable {c : Comparison} {ids : List String}
    (lists : ListsRows compiler c ids) (texts : TextKeys compiler (.test c)) :
    Writable compiler.scope c := by
  obtain ⟨items, field, operand, -, resolved, name, -⟩ := lists.texts
  exact writable_of_texts resolved (.inl name) (texts c List.mem_cons_self field resolved (.inl name))

theorem NamesPartition.writable {c : Comparison} {p : String}
    (names : NamesPartition compiler c p) (texts : TextKeys compiler (.test c)) :
    Writable compiler.scope c := by
  obtain ⟨field, resolved, name, -⟩ := names.text
  exact writable_of_texts resolved (.inr name) (texts c List.mem_cons_self field resolved (.inr name))

theorem TextKeys.child {op : Connective} {children : List Filter}
    (texts : TextKeys compiler (.combine op children)) {g : Filter} (member : g ∈ children) :
    TextKeys compiler g :=
  fun c inside => texts c (mem_comparisonsAll member inside)

theorem ListsKeys.holdsBy {ids : List String} {partition : Option String}
    (lists : ListsKeys compiler f ids partition) (formed : Formed Comparison.Formed f)
    (texts : TextKeys compiler f) (r : Record) :
    f.holdsBy (compiler.scope.testHolds r) = .ok (keysHold partition ids r) := by
  have both (a b : Bool) : allOf [.ok a, .ok b] = .ok (a && b) := by
    cases a <;> cases b <;> rfl
  cases lists with
  | alone lists =>
    rw [Filter.holdsBy, lists.testHolds texts, keysHold, Option.all_none, Bool.true_and]
  | @before rows test _ p lists names =>
    have formed' : test.Formed := formed.each test (mem_comparisonsAll (f := .test test)
      (by simp) List.mem_cons_self)
    rw [Filter.holdsBy, allHoldBy_eq_allOf, List.map_cons, List.map_cons, List.map_nil,
      Filter.holdsBy, Filter.holdsBy, lists.testHolds (texts.child (by simp)),
      names.testHolds formed' (texts.child (by simp)), both, Bool.and_comm, keysHold,
      Option.all_some]
  | @behind rows test _ p lists names =>
    have formed' : test.Formed := formed.each test (mem_comparisonsAll (f := .test test)
      (by simp) List.mem_cons_self)
    rw [Filter.holdsBy, allHoldBy_eq_allOf, List.map_cons, List.map_cons, List.map_nil,
      Filter.holdsBy, Filter.holdsBy, lists.testHolds (texts.child (by simp)),
      names.testHolds formed' (texts.child (by simp)), both, keysHold, Option.all_some]

theorem ListsKeys.each {ids : List String} {partition : Option String}
    (lists : ListsKeys compiler f ids partition) : ∀ c ∈ f.comparisons,
      ListsRows compiler c ids ∨ ∃ p, partition = some p ∧ NamesPartition compiler c p := by
  intro c member
  cases lists with
  | alone lists =>
    cases List.mem_singleton.mp member
    exact .inl lists
  | @before rows test _ p lists names =>
    have either : c ∈ [rows, test] := member
    rcases List.mem_cons.mp either with rfl | member
    · exact .inl lists
    · cases List.mem_singleton.mp member
      exact .inr ⟨p, rfl, names⟩
  | @behind rows test _ p lists names =>
    have either : c ∈ [test, rows] := member
    rcases List.mem_cons.mp either with rfl | member
    · exact .inr ⟨p, rfl, names⟩
    · cases List.mem_singleton.mp member
      exact .inl lists

theorem TextKeys.test (texts : TextKeys compiler f) {c : Comparison} (member : c ∈ f.comparisons) :
    TextKeys compiler (.test c) := by
  intro c' inside
  cases List.mem_singleton.mp inside
  exact texts c member

theorem ListsKeys.writable {ids : List String} {partition : Option String}
    (lists : ListsKeys compiler f ids partition) (texts : TextKeys compiler f) :
    ∀ c ∈ f.comparisons, Writable compiler.scope c := by
  intro c member
  rcases lists.each c member with rows | ⟨p, -, names⟩
  · exact rows.writable (texts.test member)
  · exact names.writable (texts.test member)

/-- Where the keys hold, each comparison holds that asks for them by their texts. -/
theorem ListsKeys.testHolds {ids : List String} {partition : Option String}
    (lists : ListsKeys compiler f ids partition) {r : Record}
    (keys : keysHold (partition.filter (· ≠ "")) ids r = true) {c : Comparison}
    (member : c ∈ f.comparisons) (formed : c.Formed) (texts : TextKeys compiler (.test c))
    (present : ¬ NamesPartition compiler c "") : compiler.scope.testHolds r c = .ok true := by
  simp only [keysHold, Bool.and_eq_true] at keys
  rcases lists.each c member with rows | ⟨p, rfl, names⟩
  · rw [rows.testHolds texts, keys.2]
  · have here : p ≠ "" := by
      rintro rfl
      exact present names
    rw [filter_of_named fun same => here (Option.some.inj same), Option.all_some] at keys
    rw [names.testHolds formed texts, keys.1]

theorem ListsKeys.holdsBy_true {ids : List String} {partition : Option String}
    (lists : ListsKeys compiler f ids partition) : f.holdsBy (fun _ => .ok true) = .ok true := by
  cases lists <;> rfl

theorem coerces_of_keyText {field : Field} {o : Operand} {id : String}
    (key : compiler.keyText field o = .ok id) : ∃ x, o.coerce compiler.scope.params field = .ok x := by
  unfold keyText at key
  cases coerced : o.coerce compiler.params field with
  | error fault =>
    rw [coerced] at key
    cases key
  | ok x => exact ⟨x, coerced⟩

theorem ListsKeys.planned {ids : List String} {partition : Option String}
    (lists : ListsKeys compiler f ids partition) :
    ∀ c ∈ f.comparisons, ∃ p, compiler.scope.planTest c = .ok p := by
  intro c member
  rcases lists.each c member with rows | ⟨p, -, names⟩
  · obtain ⟨items, field, operand, -, resolved, -, keys⟩ := rows.texts
    obtain ⟨operands, coerced⟩ := mapM_of_each fun o member =>
      let ⟨_, _, key⟩ := (mapM_ok keys).1 o member
      coerces_of_keyText key
    refine ⟨.test field.name (.oneOf operands) c.negated, ?_⟩
    unfold Scope.planTest Scope.condition
    rw [resolved, rows.relation, operand]
    simp only [bind, Except.bind, coerced]
    rfl
  · obtain ⟨field, resolved, -, key⟩ := names.text
    obtain ⟨x, coerced⟩ := coerces_of_keyText key
    refine ⟨.test field.name (.compare .eq x) c.negated, ?_⟩
    unfold Scope.planTest Scope.condition
    rw [resolved, names.relation]
    simp only [bind, Except.bind, coerced]
    rfl

theorem ListsRows.any {c : Comparison} {ids : List String} (lists : ListsRows compiler c ids) :
    ids ≠ [] := by
  obtain ⟨items, field, -, many, -, -, keys⟩ := lists.texts
  cases items with
  | nil => cases many
  | cons item items =>
    obtain ⟨id, inside, -⟩ := (mapM_ok keys).1 item List.mem_cons_self
    exact List.ne_nil_of_mem inside

theorem ListsKeys.any {ids : List String} {partition : Option String}
    (lists : ListsKeys compiler f ids partition) : ids ≠ [] := by
  cases lists with
  | alone lists => exact lists.any
  | before lists _ => exact lists.any
  | behind lists _ => exact lists.any

theorem compileChunks_cases {pieces : List CompiledFilter}
    (split : compiler.compileChunks f = .ok pieces) :
    (∃ ids partition, compiler.oversizedIds f = .ok (some (ids, partition)) ∧
      pieces = (compiler.idsFilters ids partition).map (⟨·, []⟩)) ∨
    (compiler.oversizedIds f = .ok none ∧
      ∃ native, compiler.compile f = .ok native ∧ pieces = [native]) := by
  unfold compileChunks at split
  cases oversized : compiler.oversizedIds f with
  | error fault =>
    rw [oversized] at split
    cases split
  | ok found =>
    cases found with
    | some keys =>
      rw [oversized] at split
      cases split
      exact .inl ⟨keys.1, keys.2, rfl, rfl⟩
    | none =>
      rw [oversized] at split
      cases whole : compiler.compile f with
      | error fault =>
        simp only [bind, Except.bind, whole] at split
        cases split
      | ok native =>
        simp only [bind, Except.bind, whole] at split
        cases split
        exact .inr ⟨rfl, native, rfl, rfl⟩

theorem compileChunks_present {pieces : List CompiledFilter}
    (split : compiler.compileChunks f = .ok pieces) : pieces ≠ [] := by
  rcases compileChunks_cases split with ⟨ids, partition, oversized, rfl⟩ | ⟨-, native, -, rfl⟩
  · intro none
    refine (oversizedIds_cases oversized).any ?_
    rw [idsFilters, List.map_map] at none
    rw [← flatten_chunks compiler.maxIds ids, List.map_eq_nil_iff.mp none, List.flatten_nil]
  · exact List.cons_ne_nil _ _

theorem compiled_selects_iff {native : CompiledFilter} (compiled : compiler.compile f = .ok native)
    (formed : Formed Comparison.Formed f) (writable : ∀ c ∈ f.comparisons, Writable compiler.scope c)
    (r : Record) : native.Selects r ↔ f.holdsBy (compiler.scope.testHolds r) = .ok true := by
  obtain ⟨p, planned, rfl⟩ := plan_of_compile compiled
  exact selects_iff_of_means (stands_plan rfl (formed.and writable) p planned).1 r

theorem idsFilters_select_iff (compiler : Compiler) (ids : List String) (partition : Option String)
    (r : Record) :
    (∃ piece ∈ (compiler.idsFilters ids partition).map (⟨·, []⟩), CompiledFilter.Selects piece r) ↔
      keysHold (partition.filter (· ≠ "")) ids r = true := by
  rw [← keysHold_chunks compiler.maxIds]
  have each {piece : List String} (member : piece ∈ chunks compiler.maxIds ids) :
      CompiledFilter.Selects ⟨idsFilter partition piece, []⟩ r ↔
        keysHold (partition.filter (· ≠ "")) piece r = true :=
    (selects_iff_of_means (means_keys partition (mem_chunks member)) r).trans
      ⟨Except.ok.inj, congrArg _⟩
  simp only [idsFilters, List.map_map, List.mem_map, Function.comp_apply]
  constructor
  · rintro ⟨_, ⟨piece, member, rfl⟩, selects⟩
    exact ⟨piece, member, (each member).mp selects⟩
  · rintro ⟨piece, member, holds⟩
    exact ⟨_, ⟨piece, member, rfl⟩, (each member).mpr holds⟩

theorem keysHold_none (ids : List String) (r : Record) :
    keysHold none ids r = true ↔ ∃ id ∈ ids, r.get? rowKey = some (.string id) := by
  simp only [keysHold, Option.all_none, Bool.true_and, List.any_eq_true]
  refine exists_congr fun id => and_congr_right fun _ => ⟨get?_of_eq_holds, fun found => ?_⟩
  have same : (compare id id == Ordering.eq) = true := by
    rw [Std.ReflOrd.compare_self]
    rfl
  simp only [Record.present?, found]
  exact same

end Compiler

/-- The pieces that a filter is split into find what the whole filter finds, unless it asks for the
partition without a name: then they find its row keys in every partition. -/
theorem pieces_select_as_whole (compiler : Compiler) {text : String} {f : Filter}
    {native : CompiledFilter} {pieces : List CompiledFilter}
    (parsed : Filter.parse compiler.params text = .ok (some f))
    (compiled : compiler.compile f = .ok native) (split : compiler.compileChunks f = .ok pieces)
    (texts : compiler.TextKeys f) (r : Record) :
    ((∀ ids, compiler.oversizedIds f ≠ .ok (some (ids, some ""))) →
      ((∃ piece ∈ pieces, piece.Selects r) ↔ native.Selects r)) ∧
    ∀ ids, compiler.oversizedIds f = .ok (some (ids, some "")) →
      ((∃ piece ∈ pieces, piece.Selects r) ↔ ∃ id ∈ ids, r.get? rowKey = some (.string id)) := by
  rcases Compiler.compileChunks_cases split with
    ⟨ids, partition, oversized, rfl⟩ | ⟨under, native', whole, rfl⟩
  · have lists := Compiler.oversizedIds_cases oversized
    rw [Compiler.idsFilters_select_iff]
    constructor
    · intro named
      have present : partition ≠ some "" := fun empty => named ids (by rw [oversized, empty])
      have formed := formed_of_parse parsed
      rw [Compiler.compiled_selects_iff compiled formed (lists.writable texts), filter_of_named present,
        lists.holdsBy formed texts]
      exact ⟨congrArg _, Except.ok.inj⟩
    · intro ids' unnamed
      rw [oversized] at unnamed
      cases unnamed
      exact Compiler.keysHold_none ids r
  · rw [whole] at compiled
    cases compiled
    refine ⟨fun _ => by simp, fun ids unnamed => ?_⟩
    rw [under] at unnamed
    cases unnamed

/-- Two row keys in a partition. -/
def twoRowsIn (partition : String) : Filter :=
  .combine .and [.test ⟨partitionKey, .compare .eq, .literal (Literal.quote partition), false⟩,
    .test ⟨rowKey, .oneOf, .list [.literal "a", .literal "b"], false⟩]

def oneRowEach : Compiler := .new (FieldMap.openFor .table) [] 1

theorem chunks_of_two : chunks oneRowEach.maxIds ["a", "b"] = [["a"], ["b"]] := by
  have size : oneRowEach.maxIds = 1 := rfl
  rw [size]
  simp [chunks]

theorem pieces_of_two {partition : String}
    (oversized : oneRowEach.oversizedIds (twoRowsIn partition) =
      .ok (some (["a", "b"], some partition))) :
    oneRowEach.compileChunks (twoRowsIn partition) =
      .ok [⟨idsFilter (some partition) ["a"], []⟩, ⟨idsFilter (some partition) ["b"], []⟩] := by
  unfold Compiler.compileChunks
  rw [oversized]
  simp only [bind, Except.bind, Compiler.idsFilters, chunks_of_two]
  rfl

theorem pieces_select_as_whole_of_two :
    ∃ native pieces, oneRowEach.compile (twoRowsIn "P") = .ok native ∧
      oneRowEach.compileChunks (twoRowsIn "P") = .ok pieces ∧ pieces.length = 2 ∧
      ∀ r, (∃ piece ∈ pieces, piece.Selects r) ↔ native.Selects r := by
  have parsed : Filter.parse [] "PartitionKey = 'P' and RowKey in (a, b)" =
      .ok (some (twoRowsIn "P")) := by
    decide +kernel
  have oversized : oneRowEach.oversizedIds (twoRowsIn "P") = .ok (some (["a", "b"], some "P")) := rfl
  have texts : oneRowEach.TextKeys (twoRowsIn "P") := by
    intro c member field resolved _ o single
    have either : c ∈ [_, _] := member
    simp only [List.mem_cons, List.not_mem_nil, or_false] at either
    rcases either with rfl | rfl
    · cases resolved
      cases List.mem_singleton.mp single
      exact ⟨"P", rfl⟩
    · cases resolved
      rcases List.mem_cons.mp single with rfl | single
      · exact ⟨"a", rfl⟩
      · cases List.mem_singleton.mp single
        exact ⟨"b", rfl⟩
  refine ⟨_, _, rfl, pieces_of_two oversized, rfl, fun r => ?_⟩
  refine (pieces_select_as_whole oneRowEach parsed rfl (pieces_of_two oversized) texts r).1 ?_
  intro ids unnamed
  rw [oversized] at unnamed
  simp at unnamed

/-- The pieces find a row key in a partition that the whole filter does not ask for. -/
theorem pieces_leave_partition :
    Filter.parse [] "PartitionKey = '' and RowKey in (a, b)" = .ok (some (twoRowsIn "")) ∧
    ∃ native pieces, oneRowEach.compile (twoRowsIn "") = .ok native ∧
      oneRowEach.compileChunks (twoRowsIn "") = .ok pieces ∧
      ∃ r : Record, (∃ piece ∈ pieces, piece.Selects r) ∧ ¬ native.Selects r := by
  have compiled : oneRowEach.compile (twoRowsIn "") =
      .ok ⟨"PartitionKey eq '' and (RowKey eq 'a' or RowKey eq 'b')", []⟩ := rfl
  have whole : Filter.parse [] "PartitionKey eq '' and (RowKey eq 'a' or RowKey eq 'b')" =
      .ok (some (.combine .and [.test ⟨partitionKey, .compare .eq, .literal "''", false⟩,
        .combine .or [.test ⟨rowKey, .compare .eq, .literal "'a'", false⟩,
          .test ⟨rowKey, .compare .eq, .literal "'b'", false⟩]])) := by
    decide +kernel
  refine ⟨by decide +kernel, _, _, compiled, pieces_of_two rfl,
    [(partitionKey, .string "Q"), (rowKey, .string "a")], ⟨_, List.mem_cons_self, ?_⟩, ?_⟩
  · exact ⟨.test ⟨rowKey, .compare .eq, .literal "'a'", false⟩, by decide +kernel,
      by decide +kernel⟩
  · rintro ⟨g, parses, holds⟩
    rw [whole] at parses
    cases parses
    revert holds
    decide +kernel

end Entity

end StoreGateway

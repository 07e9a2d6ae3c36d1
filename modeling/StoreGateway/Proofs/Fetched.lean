import StoreGateway.Proofs.KeyLists
import StoreGateway.Proofs.StoredRecords

/-!
Looking up the entities for the keys of a batch. As long as the entities of the table can be read,
the queries succeed and find what is kept under each key, neither more nor less.
-/

namespace StoreGateway

open StoreGateway.Filter

namespace Filter

variable {params : Params}

theorem comparisonCountAll_append (fs gs : List Filter) :
    comparisonCountAll (fs ++ gs) = comparisonCountAll fs + comparisonCountAll gs := by
  induction fs with
  | nil => rw [List.nil_append, comparisonCountAll, Nat.zero_add]
  | cons f fs ih => rw [List.cons_append, comparisonCountAll, comparisonCountAll, ih, Nat.add_assoc]

theorem comparisonCountAll_operandsOf (op : Connective) (f : Filter) :
    comparisonCountAll (f.operandsOf op) = f.comparisonCount := by
  cases f with
  | test c => rfl
  | combine inner children =>
    rw [operandsOf]
    split <;> rfl

theorem comparisonCount_join (op : Connective) (left right : Filter) :
    (join op left right).comparisonCount = left.comparisonCount + right.comparisonCount := by
  rw [join, comparisonCount, comparisonCountAll_append, comparisonCountAll_operandsOf,
    comparisonCountAll_operandsOf]

theorem comparisonCount_chain (op : Connective) (first : Filter) (more : List (List Char × Filter)) :
    (chainFilter op first more).comparisonCount =
      first.comparisonCount + comparisonCountAll (more.map Prod.snd) := by
  induction more generalizing first with
  | nil => rfl
  | cons next more ih =>
    rw [chainFilter, List.foldl_cons, ← chainFilter, ih, comparisonCount_join, List.map_cons,
      comparisonCountAll, Nat.add_assoc]

end Filter

namespace Entity

def equals (name text : String) : Filter :=
  .test ⟨name, .compare .eq, .literal (Literal.quote text), false⟩

theorem reads_equals {name : String} (is : IsField name.toList) (text : String) :
    Reads [] .not (equality name (Literal.quote text)).toList (equals name text) := by
  have quoted : ReadsAs [] (Literal.quote text).toList _ := readsAs_quote text
  have reads := reads_single is (relates_entityWord .eq) quoted rfl rfl
  rw [String.ofList_toList] at reads
  rw [equality_eq]
  simpa [equals] using reads

theorem comparisonCount_equals (name : String) (texts : List String) :
    comparisonCountAll (texts.map (equals name)) = texts.length := by
  induction texts with
  | nil => rfl
  | cons text texts ih =>
    rw [List.map_cons, comparisonCountAll, ih, List.length_cons, Nat.add_comm]
    rfl

theorem reads_rows {ids : List String} (any : ids ≠ []) : ∃ f,
    Reads [] .or (" or ".intercalate (ids.map fun id => equality rowKey (Literal.quote id))).toList f ∧
      f.comparisonCount = ids.length := by
  obtain ⟨id, more, rfl⟩ := List.exists_cons_of_ne_nil any
  let rest : List (List Char × Filter) := more.map fun id =>
    ((equality rowKey (Literal.quote id)).toList, equals rowKey id)
  have each : ∀ next ∈ rest, Reads [] .and next.1 next.2 := by
    intro next member
    obtain ⟨id, -, rfl⟩ := List.mem_map.mp member
    exact (reads_equals isField_rowKey id).toAnd
  have rows := (@links_or "or".toList (by decide) rfl).reads rest
    (reads_equals isField_rowKey id).toAnd each
  have joined := @toList_intercalate_chain "or".toList " or " rfl
    (equality rowKey (Literal.quote id)) rest
  have texts : rest.map (fun next => String.ofList next.1) =
      more.map fun id => equality rowKey (Literal.quote id) := by
    simp [rest]
  rw [texts] at joined
  have filters : rest.map Prod.snd = more.map (equals rowKey) := by
    simp [rest]
  rw [← joined] at rows
  refine ⟨_, rows, ?_⟩
  rw [comparisonCount_chain, filters, comparisonCount_equals, List.length_cons, Nat.add_comm]
  rfl

/-- A filter for row keys has a comparison for each of them, and one for a partition with a name. -/
theorem count_idsFilter (partition : Option String) {ids : List String} (any : ids ≠ []) :
    ∃ f, Filter.parse [] (idsFilter partition ids) = .ok (some f) ∧
      f.comparisonCount = ids.length + (partition.filter (· ≠ "")).toList.length := by
  obtain ⟨rows, reads, count⟩ := reads_rows any
  cases kept : partition.filter (· ≠ "") with
  | none =>
    have text : idsFilter partition ids =
        " or ".intercalate (ids.map fun id => equality rowKey (Literal.quote id)) := by
      rw [idsFilter, kept]
    refine ⟨rows, ?_, by simpa using count⟩
    rw [text, ← reads.parse, String.ofList_toList]
  | some p =>
    let group : List Char × Filter :=
      ('(' :: ((' ' :: ((" or ".intercalate (ids.map fun id =>
        equality rowKey (Literal.quote id))).toList ++ [' '])) ++ [')']), rows)
    have whole := ((@links_and "and".toList (by decide) rfl).reads [group]
      (reads_equals isField_partitionKey p) fun next member => by
        rw [List.mem_singleton.mp member]
        exact reads.spacedGroup).toOr
    have written : (idsFilter partition ids).toList =
        (equality partitionKey (Literal.quote p)).toList ++ chainText "and".toList [group] := by
      rw [idsFilter, kept]
      simp [chainText, group]
    rw [← written] at whole
    refine ⟨_, by rw [← whole.parse, String.ofList_toList], ?_⟩
    rw [comparisonCount_chain, List.map_cons, List.map_nil, comparisonCountAll, comparisonCountAll,
      count, Nat.add_comm]
    rfl

theorem eq_holds_iff {r : Record} {name s text : String} (found : r.get? name = some (.string s)) :
    Comparator.eq.holds (r.present? name) (.string text) = true ↔ s = text := by
  refine ⟨fun holds => ?_, fun same => ?_⟩
  · rw [get?_of_eq_holds holds] at found
    cases found
    rfl
  · rw [Record.present?, found, same]
    simp [Option.filter, Value.isNull, Comparator.holds, Value.equals, Value.compare?,
      Value.toBinary64?]

end Entity

namespace EntityTable

/-- Every entity of a table can be read back. -/
def Readable (t : EntityTable) (table : String) : Prop :=
  ∀ e ∈ t.entities, e.table = table → ∃ r, e.read = .ok r

variable {t : EntityTable} {table partition : String}

theorem select_holds {params : Params} {f : Filter} {holds : Record → Bool}
    (decides : ∀ r, f.holds params none r = .ok (holds r)) {es : List Entity}
    (readable : ∀ e ∈ es, ∃ r, e.read = .ok r) :
    ∃ records, select params (some f) none es = .ok records ∧
      ∀ r, r ∈ records ↔ ∃ e ∈ es, e.read = .ok r ∧ holds r = true := by
  induction es with
  | nil => exact ⟨[], rfl, fun r => by simp⟩
  | cons e rest ih =>
    obtain ⟨first, read⟩ := readable e List.mem_cons_self
    obtain ⟨records, selected, members⟩ := ih fun f member =>
      readable f (List.mem_cons_of_mem e member)
    have kept : keeps params (some f) first = .ok (holds first) := by
      simp only [keeps, decides]
    have here (r : Record) : (∃ g ∈ e :: rest, g.read = .ok r ∧ holds r = true) ↔
        (r = first ∧ holds r = true) ∨ r ∈ records := by
      rw [members]
      constructor
      · rintro ⟨g, member, found, held⟩
        rcases List.mem_cons.mp member with rfl | member
        · rw [read] at found
          cases found
          exact .inl ⟨rfl, held⟩
        · exact .inr ⟨g, member, found, held⟩
      · rintro (⟨rfl, held⟩ | ⟨g, member, found, held⟩)
        · exact ⟨e, List.mem_cons_self, read, held⟩
        · exact ⟨g, List.mem_cons_of_mem e member, found, held⟩
    rw [select, if_neg (Option.some_ne_none 0).symm]
    cases held : holds first with
    | false =>
      rw [held] at kept
      simp only [read, bind, Except.bind, kept, Bool.false_eq_true, if_false]
      refine ⟨records, selected, fun r => ?_⟩
      rw [here]
      refine (or_iff_right ?_).symm
      rintro ⟨rfl, also⟩
      rw [held] at also
      cases also
    | true =>
      rw [held] at kept
      simp only [read, bind, Except.bind, kept, if_true, Option.map_none, selected]
      refine ⟨first :: records, rfl, fun r => ?_⟩
      rw [here, List.mem_cons]
      refine or_congr_left ⟨fun same => ⟨same, ?_⟩, And.left⟩
      rw [same]
      exact held

theorem filterOf_ofText {text : String} {f : Filter}
    (parses : Filter.parse [] text = .ok (some f))
    (few : f.comparisonCount ≤ Entity.maxComparisons) :
    filterOf (.ofText text) = .ok (some f) := by
  have read : Filter.parse (NativeQuery.ofText text).paramsByName text = .ok (some f) := parses
  unfold filterOf
  simp only [NativeQuery.ofText] at read ⊢
  simp only [read, if_neg (Nat.not_lt.mpr few)]

theorem query_ids (keyed : t.Keyed) (readable : t.Readable table) (present : partition ≠ "")
    {ids : List String} (any : ids ≠ []) (few : ids.length ≤ Entity.maxIds) :
    ∃ records,
      ran (query table (.ofText (Entity.idsFilter (some partition) ids))) t = (.ok records, t) ∧
        ∀ r, r ∈ records ↔ ∃ e ∈ t.entities, e.table = table ∧ e.partition = partition ∧
          e.row ∈ ids ∧ e.read = .ok r := by
  obtain ⟨f, parses, count⟩ := Entity.count_idsFilter (some partition) any
  obtain ⟨g, parses', holds⟩ := (Entity.means_keys (some partition) any).parse
  rw [parses] at parses'
  cases parses'
  have kept := Entity.filter_of_named fun same => present (Option.some.inj same)
  rw [kept] at holds count
  have all : ∀ e ∈ t.entities.filter (·.table == table), ∃ r, e.read = .ok r := by
    intro e member
    obtain ⟨inside, here⟩ := List.mem_filter.mp member
    exact readable e inside (eq_of_beq here)
  obtain ⟨records, selected, members⟩ := select_holds holds all
  have filter : filterOf (.ofText (Entity.idsFilter (some partition) ids)) = .ok (some f) := by
    refine filterOf_ofText parses ?_
    rw [count, Option.toList_some, List.length_singleton]
    exact Nat.succ_le_succ few
  refine ⟨records, ?_, fun r => ?_⟩
  · change ran (liftM (filterOf (.ofText (Entity.idsFilter (some partition) ids))) >>= _) t = _
    rw [filter, ran_bind_ok (ran_lift _ t)]
    change ran (get >>= _) t = _
    rw [ran_bind_ok (ran_get t), ran_lift]
    exact Prod.ext selected rfl
  · rw [members]
    constructor
    · rintro ⟨e, member, read, held⟩
      obtain ⟨inside, here⟩ := List.mem_filter.mp member
      obtain ⟨first, second⟩ := keys_of_mem keyed inside read
      simp only [Entity.keysHold, Option.all_some, Bool.and_eq_true, List.any_eq_true,
        Entity.eq_holds_iff first, Entity.eq_holds_iff second] at held
      obtain ⟨same, id, listed, row⟩ := held
      rw [← row] at listed
      exact ⟨e, inside, eq_of_beq here, same, listed, read⟩
    · rintro ⟨e, inside, here, same, listed, read⟩
      obtain ⟨first, second⟩ := keys_of_mem keyed inside read
      refine ⟨e, List.mem_filter.mpr ⟨inside, beq_iff_eq.mpr here⟩, read, ?_⟩
      simp only [Entity.keysHold, Option.all_some, Bool.and_eq_true, List.any_eq_true,
        Entity.eq_holds_iff first, Entity.eq_holds_iff second]
      exact ⟨same, e.row, listed, rfl⟩

def shownAt (t : EntityTable) (table : String) (key : RecordKey) : Option Record :=
  (shelf.find t table key).bind shelf.read

theorem shownAt_iff (keyed : t.Keyed) {row : String} {r : Record} :
    t.shownAt table (.entity partition row) = some r ↔ ∃ e ∈ t.entities, e.table = table ∧
      e.partition = partition ∧ e.row = row ∧ e.read = .ok r := by
  rw [shownAt, Option.bind_eq_some_iff]
  constructor
  · rintro ⟨e, found, read⟩
    obtain ⟨inside, here, same⟩ := found_cases found
    cases same
    exact ⟨e, inside, here, rfl, rfl, ok_of_toOption read⟩
  · rintro ⟨e, inside, rfl, rfl, rfl, read⟩
    refine ⟨e, find_of_mem keyed inside, ?_⟩
    change e.read.toOption = some r
    rw [read]
    rfl

end EntityTable

namespace Executor

variable {e : Executor EntityTable} {t : EntityTable} {partition : String} {images : Images}

theorem mem_addImages_iff {records : List Record} {row : String} {r : Record} :
    (row, r) ∈ addImages images records ↔
      (row, r) ∈ images ∨ (r ∈ records ∧ r.get? rowKey = some (.string row)) := by
  refine ⟨mem_addImages, fun member => ?_⟩
  unfold addImages
  induction records generalizing images with
  | nil => exact member.resolve_right fun other => absurd other.1 List.not_mem_nil
  | cons first rest ih =>
    rw [List.foldl_cons]
    refine ih ?_
    rcases member with before | ⟨inside, key⟩
    · refine .inl ?_
      split
      · exact List.mem_cons_of_mem _ before
      · exact before
    · rcases List.mem_cons.mp inside with rfl | inside
      · refine .inl ?_
        rw [key]
        exact List.mem_cons_self
      · exact .inr ⟨inside, key⟩

theorem lookup_of_members {row : String} {found : Option Record}
    (members : ∀ r, (row, r) ∈ images ↔ found = some r) : images.lookup row = found := by
  cases image : images.lookup row with
  | some r => exact ((members r).mp (mem_of_lookup image)).symm
  | none =>
    cases found with
    | none => rfl
    | some r =>
      have absent := List.lookup_eq_none_iff.mp image (row, r) ((members r).mpr rfl)
      simp at absent

theorem ran_queryAll_found (queries : e.backend.query = EntityTable.query) (keyed : t.Keyed)
    (readable : t.Readable e.table) (present : partition ≠ "") {pieces : List (List String)}
    (any : ∀ ids ∈ pieces, ids ≠ []) (few : ∀ ids ∈ pieces, ids.length ≤ Entity.maxIds)
    (images : Images) (state : BatchState) :
    ∃ found, ran (e.queryAll images (pieces.map (Entity.idsFilter (some partition)))) ⟨t, state⟩ =
        (.ok found, ⟨t, state⟩) ∧
      ∀ row r, (row, r) ∈ found ↔ (row, r) ∈ images ∨
        (row ∈ pieces.flatten ∧ t.shownAt e.table (.entity partition row) = some r) := by
  induction pieces generalizing images with
  | nil => exact ⟨images, rfl, fun row r => by simp⟩
  | cons ids pieces ih =>
    obtain ⟨records, queried, members⟩ := EntityTable.query_ids keyed readable present
      (any ids List.mem_cons_self) (few ids List.mem_cons_self)
    obtain ⟨found, rest, others⟩ := ih (fun ids member => any ids (List.mem_cons_of_mem _ member))
      (fun ids member => few ids (List.mem_cons_of_mem _ member)) (addImages images records)
    refine ⟨found, ?_, fun row r => ?_⟩
    · rw [List.map_cons, queryAll, ran_bind, Running.ran_perform, queries, queried]
      exact rest
    · have here : (r ∈ records ∧ r.get? rowKey = some (.string row)) ↔
          row ∈ ids ∧ t.shownAt e.table (.entity partition row) = some r := by
        rw [members, EntityTable.shownAt_iff keyed]
        constructor
        · rintro ⟨⟨f, inside, table, same, listed, read⟩, key⟩
          rw [(EntityTable.keys_of_mem keyed inside read).2] at key
          cases key
          exact ⟨listed, f, inside, table, same, rfl, read⟩
        · rintro ⟨listed, f, inside, table, same, rfl, read⟩
          exact ⟨⟨f, inside, table, same, listed, read⟩,
            (EntityTable.keys_of_mem keyed inside read).2⟩
      rw [others, mem_addImages_iff, here, List.flatten_cons, List.mem_append, or_assoc,
        ← or_and_right]

/-- The look-up for items of one partition succeeds, and finds what is kept under the key of each. -/
theorem ran_fetch_found (queries : e.backend.query = EntityTable.query) (keyed : t.Keyed)
    (readable : t.Readable e.table) (present : partition ≠ "") (items : List Prepared)
    (state : BatchState) :
    ∃ found, ran (e.fetch partition items) ⟨t, state⟩ = (.ok found, ⟨t, state⟩) ∧
      ∀ item ∈ items, ∀ row, item.key = some (.entity partition row) →
        found.of? (.entity partition row) = t.shownAt e.table (.entity partition row) := by
  let rows := items.filterMap fun p => p.key.bind RecordKey.row?
  let compiler := Entity.Compiler.new (FieldMap.openFor .table) [] e.maxIds
  have some : 1 ≤ compiler.maxIds := Nat.le_max_left _ _
  have few : compiler.maxIds ≤ Entity.maxIds :=
    Nat.max_le.mpr ⟨by decide, Nat.min_le_right _ _⟩
  have short : ∀ ids ∈ Entity.chunks compiler.maxIds rows, ids.length ≤ Entity.maxIds :=
    fun _ member => Nat.le_trans (Entity.length_of_mem_chunks some member) few
  obtain ⟨found, fetched, members⟩ := ran_queryAll_found queries keyed readable present
    (fun _ => Entity.mem_chunks) short [] state
  refine ⟨found, fetched, fun item inside row key => ?_⟩
  have listed : row ∈ rows := by
    refine List.mem_filterMap.mpr ⟨item, inside, ?_⟩
    rw [key]
    rfl
  change found.lookup row = _
  refine lookup_of_members fun r => ?_
  rw [members, Entity.flatten_chunks]
  simp [listed]

end Executor

end StoreGateway

import StoreGateway.Proofs.Answers
import StoreGateway.Proofs.KeyLists

/-! An answer from the entity table shows no entity twice. -/

namespace StoreGateway

def Record.keys (r : Record) : Option String × Option String :=
  ((r.get? partitionKey).bind Value.string?, (r.get? rowKey).bind Value.string?)

def Entity.keys (e : Entity) : Option String × Option String := (some e.partition, some e.row)

namespace EntityTable

/-- Entities are in the order of their keys, and have no properties of their names. -/
structure Keyed (t : EntityTable) : Prop where
  sorted : t.entities.Pairwise fun e f => e.precedes f = true
  own : ∀ e ∈ t.entities, ∀ m ∈ e.properties, Entity.isProperty m.1 = true

theorem keyed_empty (maxBatch : Nat) (supply : Supply) : (empty maxBatch supply).Keyed :=
  ⟨List.Pairwise.nil, nofun⟩

variable {t : EntityTable}

theorem own_propertiesOf (r : Record) :
    ∀ m ∈ Entity.propertiesOf r, Entity.isProperty m.1 = true := by
  intro m member
  exact (List.mem_filter.mp member).2

theorem own_written {mode : WriteMode} {partition row : String} {existing : Option Record}
    {r properties : Record} (outcome : written mode partition row existing r = .ok properties) :
    ∀ m ∈ properties, Entity.isProperty m.1 = true := by
  intro m member
  unfold written at outcome
  split at outcome
  · cases outcome
  · cases outcome
  · cases outcome
  · cases outcome
    rcases Record.mem_extend member with inside | inside
    · exact own_propertiesOf _ m inside
    · exact own_propertiesOf _ m inside
  · cases outcome
    exact own_propertiesOf _ m member

theorem own_of_load {table partition row : String} {mode : WriteMode} {r properties : Record}
    (outcome : ((ran (load table partition row) t).1 >>= fun existing =>
      written mode partition row existing r) = .ok properties) :
    ∀ m ∈ properties, Entity.isProperty m.1 = true := by
  cases loaded : (ran (load table partition row) t).1 with
  | error fault =>
    rw [loaded] at outcome
    cases outcome
  | ok existing =>
    rw [loaded] at outcome
    exact own_written outcome

theorem Keyed.place (keyed : t.Keyed) {e : Entity}
    (own : ∀ m ∈ e.properties, Entity.isProperty m.1 = true) (supply : Supply) :
    Keyed { t with entities := place e t.entities, supply := supply } := by
  refine ⟨sorted_place keyed.sorted, fun f member => ?_⟩
  rcases mem_place member with rfl | inside
  · exact own
  · exact keyed.own f inside

theorem Keyed.remove (keyed : t.Keyed) (table partition row : String) :
    (ran (remove table partition row) t).2.Keyed := by
  rw [EntityTable.remove, ran_bind_ok (ran_get t)]
  cases t.find? table partition row with
  | none => exact keyed
  | some e =>
    refine ⟨keyed.sorted.sublist List.filter_sublist, fun f member => ?_⟩
    exact keyed.own f (List.mem_filter.mp member).1

theorem names_reread {r q : Record} (read : Json.rereadRecord r = .ok q) :
    q.map Prod.fst = r.map Prod.fst := by
  rw [Json.rereadRecord] at read
  induction r generalizing q with
  | nil =>
    cases read
    rfl
  | cons m rest ih =>
    obtain ⟨name, v⟩ := m
    rw [Json.rereadMembers] at read
    obtain ⟨w, -, read⟩ := bind_ok read
    obtain ⟨others, same, read⟩ := bind_ok read
    cases read
    rw [List.map_cons, List.map_cons, ih same]

/-- The record that an entity is read as has properties of its own beside the keys. -/
theorem record_of_read {e : Entity} {r : Record} (read : e.read = .ok r)
    (own : ∀ m ∈ e.properties, Entity.isProperty m.1 = true) :
    ∃ q, (∀ m ∈ q, Entity.isProperty m.1 = true) ∧ r = e.record q := by
  unfold Entity.read at read
  cases once : Json.rereadRecord e.properties with
  | error fault =>
    rw [once] at read
    cases read
  | ok q =>
    rw [once] at read
    cases read
    exact ⟨q, Record.all_of_names (P := fun name => Entity.isProperty name = true) own
      (names_reread once), rfl⟩

theorem keys_of_read {e : Entity} {r : Record} (read : e.read = .ok r)
    (own : ∀ m ∈ e.properties, Entity.isProperty m.1 = true) : r.keys = e.keys := by
  obtain ⟨q, own', rfl⟩ := record_of_read read own
  obtain ⟨partition, row⟩ := Entity.get?_record e own'
  rw [Record.keys, partition, row, Entity.keys]
  rfl

theorem sublist_select {params : Params} {filter : Option Filter} {limit : Option Nat}
    {es : List Entity} {records : List Record}
    (own : ∀ e ∈ es, ∀ m ∈ e.properties, Entity.isProperty m.1 = true)
    (selected : select params filter limit es = .ok records) :
    (records.map Record.keys).Sublist (es.map Entity.keys) := by
  induction es generalizing limit records with
  | nil =>
    cases selected
    exact List.Sublist.refl _
  | cons e rest ih =>
    have own' : ∀ f ∈ rest, ∀ m ∈ f.properties, Entity.isProperty m.1 = true :=
      fun f member => own f (List.mem_cons_of_mem e member)
    rcases select_cons_ok selected with
      ⟨-, rfl⟩ | ⟨-, first, read, ⟨-, more⟩ | ⟨-, others, more, rfl⟩⟩
    · exact List.nil_sublist _
    · exact (ih own' more).cons e.keys
    · rw [List.map_cons, List.map_cons, keys_of_read read (own e List.mem_cons_self)]
      exact (ih own' more).cons_cons e.keys

theorem nodup_keys (keyed : t.Keyed) (table : String) :
    ((t.entities.filter (·.table == table)).map Entity.keys).Nodup := by
  rw [List.Nodup, List.pairwise_map]
  refine (keyed.sorted.sublist List.filter_sublist).imp_of_mem fun {e f} inside other before same => ?_
  have here := eq_of_beq (List.mem_filter.mp inside).2
  have there := eq_of_beq (List.mem_filter.mp other).2
  simp only [Entity.keys, Prod.mk.injEq, Option.some.injEq] at same
  have different := Entity.hasKey_of_precedes before
  rw [Entity.hasKey_iff.mpr ⟨there.trans here.symm, same.1.symm, same.2.symm⟩] at different
  cases different

/-- A query finds records of the table, each entity once, that its filter keeps. -/
theorem query_cases {table : String} {q : NativeQuery} {records : List Record}
    {after : EntityTable} (run : ran (query table q) t = (.ok records, after)) :
    after = t ∧ ∃ filter, filterOf q = .ok filter ∧
      select q.paramsByName filter q.limit (t.entities.filter (·.table == table)) = .ok records := by
  change ran (liftM (filterOf q) >>= _) t = _ at run
  rw [ran_bind, ran_lift] at run
  cases found : filterOf q with
  | error fault =>
    rw [found] at run
    cases run
  | ok filter =>
    rw [found] at run
    change ran (get >>= _) t = _ at run
    rw [ran_bind_ok (ran_get t), ran_lift] at run
    exact ⟨(congrArg Prod.snd run).symm, filter, rfl, congrArg Prod.fst run⟩

theorem nodup_query (keyed : t.Keyed) {table : String} {q : NativeQuery} {records : List Record}
    {after : EntityTable} (run : ran (query table q) t = (.ok records, after)) :
    (records.map Record.keys).Nodup := by
  obtain ⟨-, filter, -, selected⟩ := query_cases run
  refine List.Nodup.sublist (sublist_select (fun e member => ?_) selected) (nodup_keys keyed table)
  exact keyed.own e (List.mem_filter.mp member).1

theorem rowKey_of_query {table : String} {partition : Option String} {ids : List String}
    (any : ids ≠ []) {limit : Option Nat} {records : List Record} {after : EntityTable}
    (run : ran (query table ⟨Entity.idsFilter partition ids, [], limit⟩) t =
      (.ok records, after)) :
    ∀ r ∈ records, ∃ id ∈ ids, r.get? rowKey = some (.string id) := by
  obtain ⟨-, filter, found, selected⟩ := query_cases run
  obtain ⟨f, parses, holds⟩ := (Entity.means_keys partition any).parse
  have read : Filter.parse (NativeQuery.paramsByName ⟨Entity.idsFilter partition ids, [], limit⟩)
      (Entity.idsFilter partition ids) = .ok (some f) := parses
  unfold filterOf at found
  simp only [read] at found
  split at found
  · cases found
  · cases found
    intro r member
    obtain ⟨e, -, -, kept⟩ := mem_select selected r member
    have kept' : f.holds [] none r = .ok true := holds_of_keeps kept
    rw [holds r] at kept'
    have keys := Except.ok.inj kept'
    simp only [Entity.keysHold, Bool.and_eq_true, List.any_eq_true] at keys
    obtain ⟨id, inside, equal⟩ := keys.2
    exact ⟨id, inside, Entity.get?_of_eq_holds equal⟩

end EntityTable

namespace Gateway

variable {g : Gateway EntityTable} {t after : EntityTable} {table : String} {limit : Nat}
  {records : List Record}

theorem queryTexts_cons {text : String} {rest : List String}
    (backend : g.backend = EntityTable.backend)
    (run : ran (g.queryTexts table limit (text :: rest)) t = (.ok records, after)) :
    ∃ first others, records = first ++ others ∧
      ran (EntityTable.query table ⟨text, [], some limit⟩) t = (.ok first, t) ∧
      ran (g.queryTexts table limit rest) t = (.ok others, after) := by
  rw [queryTexts] at run
  rcases asked : ran (perform (g.backend.query table
    { NativeQuery.ofText text with limit := some limit })) t with ⟨outcome, left⟩
  cases outcome with
  | error error =>
    rw [ran_bind_error asked] at run
    cases run
  | ok first =>
    rw [ran_bind_ok asked] at run
    have queried := ran_perform_ok asked
    rw [backend] at queried
    obtain ⟨rfl, -⟩ := EntityTable.query_cases queried
    rcases later : ran (g.queryTexts table limit rest) left with ⟨outcome, final⟩
    cases outcome with
    | error error =>
      rw [ran_bind_error later] at run
      cases run
    | ok others =>
      rw [ran_bind_ok later] at run
      cases run
      exact ⟨first, others, rfl, queried, rfl⟩

theorem nodup_queryText {text : String} (backend : g.backend = EntityTable.backend)
    (keyed : t.Keyed) (run : ran (g.queryTexts table limit [text]) t = (.ok records, after)) :
    (records.map Record.keys).Nodup := by
  obtain ⟨first, others, rfl, queried, rest⟩ := queryTexts_cons backend run
  cases rest
  rw [List.append_nil]
  exact EntityTable.nodup_query keyed queried

def Apart (pieces : List (List String)) : Prop :=
  pieces.Pairwise fun ids others => ∀ id ∈ ids, id ∉ others

theorem nodup_queryPieces {partition : Option String} {pieces : List (List String)}
    (backend : g.backend = EntityTable.backend) (keyed : t.Keyed) (any : ∀ ids ∈ pieces, ids ≠ [])
    (apart : Apart pieces)
    (run : ran (g.queryTexts table limit (pieces.map (Entity.idsFilter partition))) t =
      (.ok records, after)) :
    (records.map Record.keys).Nodup ∧
      ∀ r ∈ records, ∃ ids ∈ pieces, ∃ id ∈ ids, r.get? rowKey = some (.string id) := by
  -- the induction is on the pieces; what is found for one has no row key of the others
  induction pieces generalizing records with
  | nil =>
    cases run
    exact ⟨List.nodup_nil, nofun⟩
  | cons ids pieces ih =>
    obtain ⟨here, later⟩ := List.pairwise_cons.mp apart
    obtain ⟨first, others, rfl, queried, rest⟩ := queryTexts_cons backend run
    obtain ⟨single, rows⟩ := ih (fun ids member => any ids (List.mem_cons_of_mem _ member)) later rest
    have found := EntityTable.rowKey_of_query (any ids List.mem_cons_self) queried
    refine ⟨?_, fun r member => ?_⟩
    · rw [List.map_append]
      refine List.nodup_append.mpr ⟨EntityTable.nodup_query keyed queried, single, ?_⟩
      intro keys inside keys' other same
      obtain ⟨r, member, rfl⟩ := List.mem_map.mp inside
      obtain ⟨s, member', rfl⟩ := List.mem_map.mp other
      obtain ⟨id, listed, row⟩ := found r member
      obtain ⟨ids', among, id', listed', row'⟩ := rows s member'
      have equal := congrArg Prod.snd same
      simp only [Record.keys, row, row', Option.bind_some, Value.string?,
        Option.some.injEq] at equal
      subst equal
      exact here ids' among id listed listed'
    · rcases List.mem_append.mp member with inside | inside
      · obtain ⟨id, listed, row⟩ := found r inside
        exact ⟨ids, List.mem_cons_self, id, listed, row⟩
      · obtain ⟨ids', among, id, listed, row⟩ := rows r inside
        exact ⟨ids', List.mem_cons_of_mem ids among, id, listed, row⟩

/-- A read from a table asks for the texts that its filter is compiled to. -/
theorem entityTexts_of_parse (kind : g.kind = .table) {o : RequestOptions} {text : String}
    {f : Filter} {texts : List String} (parsed : Filter.parse o.params text = .ok (some f))
    (compiled : g.entityTexts table o (some text) = .ok texts) :
    ∃ pieces, (g.entityCompiler table o.params).compileChunks f = .ok pieces ∧
      texts = pieces.map CompiledFilter.text := by
  unfold entityTexts at compiled
  simp only [compile, kind, parsed] at compiled
  have read : compileRequest (Except.mapError CompileFault.filter (.ok (some f))) =
    .ok (some f) := rfl
  simp only [read, bind, Except.bind] at compiled
  cases split : (g.entityCompiler table o.params).compileChunks f with
  | error fault =>
    rw [split] at compiled
    cases compiled
  | ok pieces =>
    have present : pieces.isEmpty = false :=
      List.isEmpty_eq_false_iff.mpr (Entity.Compiler.compileChunks_present split)
    rw [split] at compiled
    change Except.ok (if (pieces.isEmpty) = true then _ else _) = _ at compiled
    rw [present] at compiled
    cases compiled
    exact ⟨pieces, rfl, rfl⟩

theorem entityTexts_cases (kind : g.kind = .table) {o : RequestOptions} {filter : Option String}
    {texts : List String} (compiled : g.entityTexts table o filter = .ok texts) :
    (∃ text, texts = [text]) ∨ ∃ text f ids partition, filter = some text ∧
      Filter.parse o.params text = .ok (some f) ∧
      (g.entityCompiler table o.params).oversizedIds f = .ok (some (ids, partition)) ∧
      texts = (Entity.chunks (g.entityCompiler table o.params).maxIds ids).map
        (Entity.idsFilter partition) := by
  cases filter with
  | none =>
    cases compiled
    exact .inl ⟨"", rfl⟩
  | some text =>
    cases parsed : Filter.parse o.params text with
    | error fault =>
      simp only [entityTexts, compile, kind, parsed] at compiled
      cases compiled
    | ok found =>
      cases found with
      | none =>
        simp only [entityTexts, compile, kind, parsed] at compiled
        cases compiled
        exact .inl ⟨"", rfl⟩
      | some f =>
        obtain ⟨pieces, split, rfl⟩ := entityTexts_of_parse kind parsed compiled
        rcases Entity.Compiler.compileChunks_cases split with
          ⟨ids, partition, oversized, rfl⟩ | ⟨-, native, -, rfl⟩
        · refine .inr ⟨text, f, ids, partition, rfl, parsed, oversized, ?_⟩
          simp [Entity.Compiler.idsFilters, Function.comp_def]
        · exact .inl ⟨native.text, rfl⟩

/-- The pieces that the filter of a request is split into ask for different row keys. -/
def PiecesApart (g : Gateway EntityTable) (table : String) (o : RequestOptions) : Prop :=
  ∀ text f ids partition, g.effectiveFilter o = .ok (some text) →
    Filter.parse o.params text = .ok (some f) →
    (g.entityCompiler table o.params).oversizedIds f = .ok (some (ids, partition)) →
    Apart (Entity.chunks (g.entityCompiler table o.params).maxIds ids)

def shownKeys (v : Value) : Option (Option String × Option String) := v.object?.map Record.keys

theorem keys_clean (s : Selection) (r : Record) : (s.clean .table r).keys = r.keys := by
  have first : partitionKey ∈ StoreKind.table.identifiers := List.mem_cons_self
  have second : rowKey ∈ StoreKind.table.identifiers := List.mem_cons_of_mem _ List.mem_cons_self
  rw [Record.keys, s.get?_clean r first, s.get?_clean r second, Record.keys]

/-- What a read from a table finds, and what of it the answer shows. -/
theorem retrieve_cases (kind : g.kind = .table) {o : RequestOptions} {e : Envelope}
    (retrieved : ran (g.retrieve table o) t = (.ok e, after)) :
    ∃ filter texts, ∃ found sorted : List Record, g.effectiveFilter o = .ok filter ∧
      g.entityTexts table o filter = .ok texts ∧
      ran (g.queryTexts table (g.limit o) texts) t = (.ok found, after) ∧ sorted.Perm found ∧
      e.resource = ((sorted.take (g.limit o)).map ((o.selection .all).clean .table)).map
        Value.object := by
  change ran (liftM (g.effectiveFilter o) >>= _) t = _ at retrieved
  rw [ran_bind, ran_lift] at retrieved
  cases effective : g.effectiveFilter o with
  | error error =>
    rw [effective] at retrieved
    cases retrieved
  | ok filter =>
    rw [effective] at retrieved
    simp only [kind] at retrieved
    change ran (liftM (g.entityTexts table o filter) >>= _) t = _ at retrieved
    rw [ran_bind, ran_lift] at retrieved
    cases compiled : g.entityTexts table o filter with
    | error error =>
      rw [compiled] at retrieved
      cases retrieved
    | ok texts =>
      rw [compiled] at retrieved
      rcases queried : ran (g.queryTexts table (g.limit o) texts) t with ⟨outcome, left⟩
      cases outcome with
      | error error =>
        simp only [ran_bind_error queried] at retrieved
        cases retrieved
      | ok found =>
        simp only [ran_bind_ok queried] at retrieved
        cases ordered : o.orderBy with
        | none =>
          rw [ordered] at retrieved
          cases retrieved
          refine ⟨filter, texts, found, found, rfl, compiled, queried, List.Perm.refl _, ?_⟩
          cases o.includeCount <;> rfl
        | some keys =>
          rw [ordered] at retrieved
          cases retrieved
          refine ⟨filter, texts, found, Record.sortBy keys none found, rfl, compiled, queried,
            Record.perm_sortBy keys none found, ?_⟩
          cases o.includeCount <;> rfl

/-- An answer shows no entity twice, whatever is asked for, unless the filter is split and a row key
is in two of its pieces. -/
theorem entities_shown_once (backend : g.backend = EntityTable.backend) (keyed : t.Keyed)
    {o : RequestOptions} (apart : g.PiecesApart table o) {e : Envelope}
    (retrieved : ran (g.retrieve table o) t = (.ok e, after)) :
    (e.resource.map shownKeys).Nodup := by
  have kind : g.kind = .table := by
    rw [Gateway.kind, backend]
    rfl
  obtain ⟨filter, texts, found, sorted, effective, compiled, run, perm, shown⟩ :=
    retrieve_cases kind retrieved
  have nodup : (found.map Record.keys).Nodup := by
    rcases entityTexts_cases kind compiled with
      ⟨text, rfl⟩ | ⟨text, f, ids, partition, rfl, parsed, oversized, rfl⟩
    · exact nodup_queryText backend keyed run
    · exact (nodup_queryPieces backend keyed (fun _ => Entity.mem_chunks)
        (apart text f ids partition effective parsed oversized) run).1
  have keys : e.resource.map shownKeys =
      ((sorted.take (g.limit o)).map Record.keys).map some := by
    rw [shown, List.map_map, List.map_map, List.map_map]
    refine List.map_congr_left fun r _ => ?_
    change some ((o.selection .all).clean .table r).keys = some r.keys
    rw [keys_clean]
  rw [keys]
  have distinct : ((sorted.take (g.limit o)).map Record.keys).Nodup :=
    List.Nodup.sublist ((List.take_sublist _ _).map _) ((perm.map _).nodup_iff.mpr nodup)
  exact List.pairwise_map.mpr (distinct.imp fun different same => different (Option.some.inj same))

def twoRows : EntityTable := ⟨[⟨"t", "P", "a", [], ""⟩, ⟨"t", "P", "b", [], ""⟩], 100, ⟨0, 0⟩⟩

def oneRowEach : Gateway EntityTable :=
  (Gateway.new EntityTable.backend).withLimits { Limits.default with maxIdsPerFilter := 1 }

def asking (filter : String) : RequestOptions :=
  { RequestOptions.none with filter := some filter }

theorem twoRows_keyed : twoRows.Keyed := by
  refine ⟨by decide, fun e member => ?_⟩
  simp only [twoRows, List.mem_cons, List.not_mem_nil, or_false] at member
  rcases member with rfl | rfl <;> nofun

theorem twoRows_apart : oneRowEach.PiecesApart "t" (asking "RowKey in (a, b)") := by
  intro text f ids partition effective parsed oversized
  have whole : Gateway.effectiveFilter oneRowEach (asking "RowKey in (a, b)") =
      .ok (some "RowKey in (a, b)") := rfl
  rw [whole] at effective
  cases effective
  have read : Filter.parse [] "RowKey in (a, b)" =
      .ok (some (.test ⟨rowKey, .oneOf, .list [.literal "a", .literal "b"], false⟩)) := by
    decide +kernel
  rw [show (asking "RowKey in (a, b)").params = [] from rfl, read] at parsed
  cases parsed
  cases oversized
  change Apart (Entity.chunks Entity.oneRowEach.maxIds ["a", "b"])
  rw [Entity.chunks_of_two]
  unfold Apart
  decide

/-- Both are found, each by a piece of the list of their row keys. -/
theorem entities_shown_once_of_two :
    ∃ e, (ran (oneRowEach.retrieve "t" (asking "RowKey in (a, b)")) twoRows).1 = .ok e ∧
      e.resource.length = 2 ∧ (e.resource.map shownKeys).Nodup := by
  have both : (ran (oneRowEach.retrieve "t" (asking "RowKey in (a, b)")) twoRows).1.toOption.any
      (fun e => e.resource.length == 2) = true := by
    decide +kernel
  rcases run : ran (oneRowEach.retrieve "t" (asking "RowKey in (a, b)")) twoRows with
    ⟨outcome, after⟩
  rw [run] at both
  cases outcome with
  | error error => cases both
  | ok e =>
    exact ⟨e, rfl, eq_of_beq both, entities_shown_once rfl twoRows_keyed twoRows_apart run⟩

/-- A row key that is listed twice, in two pieces, is shown twice. -/
theorem entity_shown_twice :
    ∃ e, (ran (oneRowEach.retrieve "t" (asking "RowKey in (a, b, a)")) twoRows).1 = .ok e ∧
      ¬ (e.resource.map shownKeys).Nodup := by
  have twice : (ran (oneRowEach.retrieve "t" (asking "RowKey in (a, b, a)")) twoRows).1.toOption.any
      (fun e => !decide (e.resource.map shownKeys).Nodup) = true := by
    decide +kernel
  rcases run : ran (oneRowEach.retrieve "t" (asking "RowKey in (a, b, a)")) twoRows with
    ⟨outcome, after⟩
  rw [run] at twice
  cases outcome with
  | error error => cases twice
  | ok e => exact ⟨e, rfl, by simpa [Except.toOption] using twice⟩

end Gateway

end StoreGateway

import StoreGateway.Proofs.AllOrNothing
import StoreGateway.Proofs.EntityMeaning
import StoreGateway.Proofs.TableUndo

/-! Entities that are looked up by their row keys before a batch deletes them. -/

namespace StoreGateway

open StoreGateway.Filter

namespace Entity

theorem isField_partitionKey : IsField partitionKey.toList :=
  ⟨by decide, by decide⟩

theorem isField_rowKey : IsField rowKey.toList :=
  ⟨by decide, by decide⟩

theorem filter_of_named {partition : Option String} (named : partition ≠ some "") :
    partition.filter (· ≠ "") = partition := by
  cases partition with
  | none => rfl
  | some p =>
    have present : p ≠ "" := fun empty => named (by rw [empty])
    simp [Option.filter, present]

/-- A filter for row keys in a partition reads as one that asks for the partition first. -/
theorem means_idsFilter {partition : String} (present : partition ≠ "") {ids : List String}
    (any : ids ≠ []) :
    Means [] none .and (idsFilter (some partition) ids) fun r =>
      allOf [.ok (Comparator.eq.holds (r.present? partitionKey) (.string partition)),
        anyOf (ids.map fun id =>
          .ok (Comparator.eq.holds (r.present? rowKey) (.string id)))] := by
  let rows : List Phrase := ids.map fun id =>
    (equality rowKey (Literal.quote id), fun r =>
      .ok (Comparator.eq.holds (r.present? rowKey) (.string id)))
  have first : Means [] none .not _ _ := means_exactly isField_partitionKey partition
  have each : ∀ row ∈ rows, Means [] none .and row.1 row.2 := by
    intro row member
    obtain ⟨id, -, rfl⟩ := List.mem_map.mp member
    exact (means_exactly isField_rowKey id).toAnd
  have second := (means_chain_or "or" " or " (by decide) rfl rfl rows
    (by simpa [rows] using any) each).spacedGroup
  have both := means_chain_and "and" " and " (by decide) rfl rfl [(_, _), (_, _)]
    (by simp) (by
      intro item member
      rcases List.mem_cons.mp member with rfl | member
      · exact first
      · rw [List.mem_singleton.mp member]
        exact second)
  have texts : rows.map Prod.fst = ids.map fun id => equality rowKey (Literal.quote id) := by
    simp [rows]
  have text : idsFilter (some partition) ids = " and ".intercalate
      [conditionText partitionKey (.exactly partition),
        "( " ++ " or ".intercalate (rows.map Prod.fst) ++ " )"] := by
    have kept := filter_of_named fun same => present (Option.some.inj same)
    unfold idsFilter
    simp only [kept, texts]
    apply String.toList_inj.mp
    simp [conditionText]
  have meanings (r : Record) : rows.map (fun row => row.2 r) = ids.map fun id =>
      .ok (Comparator.eq.holds (r.present? rowKey) (.string id)) := by
    simp [rows]
  rw [text]
  simp only [List.map_cons, List.map_nil, meanings] at both
  exact both

theorem get?_of_eq_holds {r : Record} {name text : String}
    (holds : Comparator.eq.holds (r.present? name) (.string text) = true) :
    r.get? name = some (.string text) := by
  unfold Record.present? at holds
  cases found : r.get? name with
  | none =>
    rw [found] at holds
    cases holds
  | some v =>
    rw [found] at holds
    cases v with
    | string s =>
      have equal : (compare s text == Ordering.eq) = true := holds
      rw [Std.LawfulEqOrd.eq_of_compare (eq_of_beq equal)]
    | null => cases holds
    | _ => exact absurd holds (by simp [Option.filter, Value.isNull, Comparator.holds,
        Value.equals, Value.compare?, Value.toBinary64?, Value.same])

theorem partition_of_idsFilter {partition : String} (present : partition ≠ "") {ids : List String}
    (any : ids ≠ []) : ∃ f, Filter.parse [] (idsFilter (some partition) ids) = .ok (some f) ∧
      ∀ r, f.holds [] none r = .ok true → r.get? partitionKey = some (.string partition) := by
  obtain ⟨f, parses, holds⟩ := (means_idsFilter present any).toOr.parse
  refine ⟨f, parses, fun r kept => get?_of_eq_holds ?_⟩
  rw [holds r] at kept
  cases first : Comparator.eq.holds (r.present? partitionKey) (.string partition) with
  | true => rfl
  | false =>
    rw [first] at kept
    cases kept

theorem exists_of_mem_chunks {α : Type} {size : Nat} {xs piece : List α}
    (member : piece ∈ chunks size xs) : ∃ x rest, piece = x :: List.take (size - 1) rest := by
  induction xs using chunks.induct size with
  | case1 =>
    rw [chunks] at member
    cases member
  | case2 x rest ih =>
    rw [chunks] at member
    rcases List.mem_cons.mp member with rfl | member
    · exact ⟨x, rest, rfl⟩
    · exact ih member

theorem mem_chunks {α : Type} {size : Nat} {xs piece : List α} (member : piece ∈ chunks size xs) :
    piece ≠ [] := by
  obtain ⟨x, rest, rfl⟩ := exists_of_mem_chunks member
  exact List.cons_ne_nil _ _

theorem length_of_mem_chunks {α : Type} {size : Nat} (some : 1 ≤ size) {xs piece : List α}
    (member : piece ∈ chunks size xs) : piece.length ≤ size := by
  obtain ⟨x, rest, rfl⟩ := exists_of_mem_chunks member
  rw [List.length_cons, List.length_take]
  omega

end Entity

namespace EntityTable

theorem find?_of_mem {es : List Entity} (sorted : es.Pairwise fun e f => e.precedes f = true)
    {e : Entity} (member : e ∈ es) :
    es.find? (fun f => f.hasKey e.table e.partition e.row) = some e := by
  induction es with
  | nil => cases member
  | cons first rest ih =>
    have split := List.pairwise_cons.mp sorted
    rw [List.find?_cons]
    rcases List.mem_cons.mp member with rfl | member
    · rw [Entity.hasKey_iff.mpr ⟨rfl, rfl, rfl⟩]
    · have other : first.hasKey e.table e.partition e.row = false := by
        refine Bool.eq_false_iff.mpr fun same => ?_
        have keys := Entity.hasKey_iff.mp same
        have apart := Entity.hasKey_of_precedes (split.1 e member)
        rw [keys.1, keys.2.1, keys.2.2, Entity.hasKey_iff.mpr ⟨rfl, rfl, rfl⟩] at apart
        cases apart
      rw [other]
      exact ih split.2 member

/-- What is selected from some entities: nothing at the limit, else the first of them if the filter
keeps it, and what is selected from the others. -/
theorem select_cons_ok {params : Params} {filter : Option Filter} {limit : Option Nat} {e : Entity}
    {rest : List Entity} {records : List Record}
    (selected : select params filter limit (e :: rest) = .ok records) :
    limit = some 0 ∧ records = [] ∨ limit ≠ some 0 ∧ ∃ r, e.read = .ok r ∧
      (keeps params filter r = .ok false ∧ select params filter limit rest = .ok records ∨
        keeps params filter r = .ok true ∧ ∃ others,
          select params filter (limit.map (· - 1)) rest = .ok others ∧ records = r :: others) := by
  rw [select] at selected
  split at selected
  · next full =>
    cases selected
    exact .inl ⟨full, rfl⟩
  · next room =>
    obtain ⟨r, read, selected⟩ := bind_ok selected
    obtain ⟨kept, keeps, selected⟩ := bind_ok selected
    refine .inr ⟨room, r, read, ?_⟩
    cases kept with
    | false => exact .inl ⟨keeps, selected⟩
    | true =>
      obtain ⟨others, more, selected⟩ := bind_ok selected
      cases selected
      exact .inr ⟨keeps, others, more, rfl⟩

theorem mem_select {params : Params} {filter : Option Filter} {limit : Option Nat}
    {es : List Entity} {records : List Record}
    (selected : select params filter limit es = .ok records) :
    ∀ r ∈ records, ∃ e ∈ es, e.read = .ok r ∧ keeps params filter r = .ok true := by
  induction es generalizing limit records with
  | nil =>
    cases selected
    nofun
  | cons e rest ih =>
    have later {limit : Option Nat} {records : List Record}
        (selected : select params filter limit rest = .ok records) :
        ∀ r ∈ records, ∃ f ∈ e :: rest, f.read = .ok r ∧ keeps params filter r = .ok true := by
      intro r member
      obtain ⟨f, inside, found⟩ := ih selected r member
      exact ⟨f, List.mem_cons_of_mem e inside, found⟩
    rcases select_cons_ok selected with
      ⟨-, rfl⟩ | ⟨-, first, read, ⟨-, more⟩ | ⟨kept, others, more, rfl⟩⟩
    · nofun
    · exact later more
    · intro r member
      rcases List.mem_cons.mp member with rfl | member
      · exact ⟨e, List.mem_cons_self, read, kept⟩
      · exact later more r member

theorem holds_of_keeps {params : Params} {f : Filter} {r : Record}
    (kept : keeps params (some f) r = .ok true) : f.holds params none r = .ok true := by
  unfold keeps at kept
  simp only at kept
  split at kept
  · next b evaluated =>
    cases kept
    exact evaluated
  · cases kept

theorem contents_of_mem {t : EntityTable} (sound : t.Sound) {e : Entity} (member : e ∈ t.entities) :
    t.contents e.table (.entity e.partition e.row) = (Json.rereadRecord e.properties).toOption := by
  have found : t.find? e.table e.partition e.row = some e := find?_of_mem sound.sorted member
  rw [contents, found, Option.bind_some]

theorem mem_query_ids {t after : EntityTable} {table partition : String} {ids : List String}
    {records : List Record} (sound : t.Sound) (present : partition ≠ "") (any : ids ≠ [])
    (run : ran (query table (.ofText (Entity.idsFilter (some partition) ids))) t =
      (.ok records, after)) :
    ∀ r ∈ records, ∃ (e : Entity) (q : Record), e.partition = partition ∧ r = e.record q ∧
      Entity.Shown q ∧ t.contents table (.entity partition e.row) = some q := by
  obtain ⟨f, parses, holds⟩ := Entity.partition_of_idsFilter present any
  let asked := NativeQuery.ofText (Entity.idsFilter (some partition) ids)
  have read : Filter.parse asked.paramsByName asked.text = .ok (some f) := parses
  change ran (liftM (filterOf asked) >>= _) t = _ at run
  rw [ran_bind, ran_lift] at run
  unfold filterOf at run
  simp only [read] at run
  by_cases many : Entity.maxComparisons < f.comparisonCount
  · rw [if_pos many] at run
    cases run
  · rw [if_neg many] at run
    change ran (get >>= _) t = _ at run
    rw [ran_bind_ok (ran_get t), ran_lift] at run
    intro r member
    obtain ⟨e, inside, shown, kept⟩ := mem_select (congrArg Prod.fst run) r member
    have place := List.mem_filter.mp inside
    have kept' : f.holds [] none r = .ok true := holds_of_keeps kept
    obtain ⟨q, once, shown'⟩ := (sound.properties e place.1).reread
    rw [Entity.read, once] at shown
    cases shown
    have key := holds _ kept'
    rw [(Entity.get?_record e shown'.own).1] at key
    cases key
    have stored := contents_of_mem sound place.1
    rw [eq_of_beq place.2, once] at stored
    exact ⟨e, q, rfl, rfl, shown', stored⟩

end EntityTable

namespace Executor

variable {e : Executor (Faulty EntityTable)}

theorem mem_addImages {images : Images} {records : List Record} {row : String} {r : Record}
    (member : (row, r) ∈ addImages images records) :
    (row, r) ∈ images ∨ (r ∈ records ∧ r.get? rowKey = some (.string row)) := by
  unfold addImages at member
  induction records generalizing images with
  | nil => exact .inl member
  | cons first rest ih =>
    rw [List.foldl_cons] at member
    rcases ih member with before | ⟨inside, key⟩
    · split at before
      · next row' key =>
        rcases List.mem_cons.mp before with same | before
        · cases same
          exact .inr ⟨List.mem_cons_self, key⟩
        · exact .inl before
      · exact .inl before
    · exact .inr ⟨List.mem_cons_of_mem first inside, key⟩

theorem ran_query_ok {table : String} {q : NativeQuery} {p after : Progress (Faulty EntityTable)}
    {records : List Record}
    (run : ran (Running.perform ((Faulty.backend EntityTable.backend).query table q)) p =
      (.ok records, after)) :
    after = p ∧ ran (EntityTable.query table q) p.store.store = (.ok records, p.store.store) := by
  have same := EntityTable.query_same (t := p.store.store) table q
  rw [Running.ran_perform] at run
  rcases queried : ran (EntityTable.query table q) p.store.store with ⟨outcome, store⟩
  rw [queried] at same
  have unmoved : p.store.store = store := same.symm
  have read : ran ((Faulty.backend EntityTable.backend).query table q) p.store =
      (outcome, { p.store with store := store }) := by
    change ran (Faulty.read (EntityTable.query table q)) p.store = _
    rw [Faulty.ran_read, queried]
  rw [read] at run
  cases outcome with
  | error fault => cases run
  | ok found =>
    cases run
    subst unmoved
    exact ⟨rfl, rfl⟩

theorem mem_queryAll {t : EntityTable} (sound : t.Sound)
    (faulty : e.backend = Faulty.backend EntityTable.backend) {partition : String}
    (present : partition ≠ "") {pieces : List (List String)} (any : ∀ ids ∈ pieces, ids ≠ [])
    {images found : Images} {p after : Progress (Faulty EntityTable)} (same : p.store.store = t)
    (run : ran (e.queryAll images (pieces.map (Entity.idsFilter (some partition)))) p =
      (.ok found, after)) {row : String} {r : Record} (member : (row, r) ∈ found) :
    (row, r) ∈ images ∨
      ∃ q, EntityTable.keeping.shows (.entity partition row) r q ∧
        t.contents e.table (.entity partition row) = some q := by
  induction pieces generalizing images p with
  | nil =>
    cases run
    exact .inl member
  | cons ids pieces ih =>
    rw [List.map_cons, queryAll, faulty] at run
    rcases asked : ran (Running.perform ((Faulty.backend EntityTable.backend).query e.table
      (.ofText (Entity.idsFilter (some partition) ids)))) p with ⟨outcome, p'⟩
    cases outcome with
    | error error =>
      rw [ran_bind_error asked] at run
      cases run
    | ok records =>
      obtain ⟨unmoved, queried⟩ := ran_query_ok asked
      rw [ran_bind_ok asked] at run
      rw [same] at queried
      rcases ih (fun ids member => any ids (List.mem_cons_of_mem _ member))
        (by rw [unmoved]; exact same) run with before | shown
      · rcases mem_addImages before with before | ⟨inside, key⟩
        · exact .inl before
        · obtain ⟨f, q, rfl, rfl, shown, stored⟩ := EntityTable.mem_query_ids sound present
            (any ids List.mem_cons_self) queried r inside
          rw [(Entity.get?_record f shown.own).2] at key
          cases key
          exact .inr ⟨q, ⟨shown, f, rfl, rfl⟩, stored⟩
      · exact .inr shown

theorem mem_allPrepared {items : List (Nat × Except RequestError Prepared)}
    {prepared : List Prepared} (all : allPrepared? items = some prepared)
    {i : Nat × Except RequestError Prepared} (member : i ∈ items) {item : Prepared}
    (same : i.2 = .ok item) : item ∈ prepared := by
  have inside : i.2 ∈ items.map Prod.snd := List.mem_map_of_mem member
  rw [outcomes_of_allPrepared all, same] at inside
  obtain ⟨other, here, is⟩ := List.mem_map.mp inside
  cases is
  exact here

theorem partition_of_shared {prepared : List Prepared} {partition : String}
    (shared : Prepared.sharedPartition? prepared = some partition) :
    ∀ item ∈ prepared, item.key.bind RecordKey.partition? = some partition := by
  cases prepared with
  | nil => cases shared
  | cons first rest =>
    change first.key.bind RecordKey.partition? >>= _ = some partition at shared
    cases here : first.key.bind RecordKey.partition? with
    | none =>
      rw [here] at shared
      cases shared
    | some p =>
      rw [here] at shared
      change (if _ then some p else none) = some partition at shared
      split at shared
      · next all =>
        cases shared
        intro item member
        rcases List.mem_cons.mp member with rfl | member
        · exact here
        · exact eq_of_beq (List.all_eq_true.mp all item member)
      · cases shared

/-- Where a batch looks its items up first, each of them is to be deleted from the partition. -/
theorem route_deletes {σ : Type} {e : Executor σ} {policy : Policy} {items : List (Nat × Except RequestError Prepared)}
    {partition : String} {prepared : List Prepared}
    (way : e.route policy items = .deletes partition prepared) :
    e.backend.kind = .table ∧ policy.verb = .delete ∧ ∀ i ∈ items, ∀ item, i.2 = .ok item →
      item.key.bind RecordKey.partition? = some partition := by
  rcases route_cases e policy items with
    other | ⟨_, _, all, shared, ⟨other, -⟩ | ⟨other, -⟩ | ⟨same, kind, delete⟩⟩
  · cases way.symm.trans other
  · cases way.symm.trans other
  · cases way.symm.trans other
  · cases way.symm.trans same
    exact ⟨kind, delete, fun i member item is =>
      partition_of_shared shared item (mem_allPrepared all member is)⟩

/-- The images that a batch has of what it deletes are those of the table. -/
theorem known_fetch {t : EntityTable} (sound : t.Sound)
    (faulty : e.backend = Faulty.backend EntityTable.backend) {verb : Verb} {ops : List Operation}
    (writes : Writes verb ops)
    (returns : verb = .delete → ∀ i ∈ e.items ops, ∀ item, i.2 = .ok item → ∀ key,
      item.key = some key → EntityTable.keeping.returns key)
    {partition : String} {prepared : List Prepared}
    (way : e.route (e.policy verb ops.length) (e.items ops) = .deletes partition prepared)
    {images : Images} {plan : List (Option StoreFault)} {after : Progress (Faulty EntityTable)}
    (fetched : ran (e.fetch partition prepared) ⟨⟨t, plan⟩, .collecting⟩ = (.ok images, after)) :
    ∀ i ∈ e.items ops, ∀ item, i.2 = .ok item →
      Known EntityTable.keeping e.table (some images) item t := by
  obtain ⟨-, delete, inside⟩ := route_deletes way
  have is : verb = .delete := delete
  intro i member item same found which
  cases which
  obtain ⟨op, inOps, rfl⟩ := List.mem_map.mp member
  obtain ⟨key', -, made⟩ := prepare_cases same
  refine ⟨?_, fun key keyed r image => ?_⟩
  · rw [made]
    exact (writes.verbs op inOps).trans is
  · have here := inside _ member item same
    rw [keyed] at here
    cases key with
    | document id => cases here
    | entity p row =>
      cases here
      have present := (returns is _ member item same _ keyed _ row rfl).1
      have found : (row, r) ∈ images := mem_of_lookup image
      rcases mem_queryAll sound faulty present
        (fun ids member => Entity.mem_chunks member) rfl fetched found with before | ⟨q, shown, stored⟩
      · cases before
      · exact ⟨q, shown, .inr stored⟩

end Executor

end StoreGateway

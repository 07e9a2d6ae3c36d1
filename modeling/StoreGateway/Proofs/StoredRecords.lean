import StoreGateway.Proofs.Addressed
import StoreGateway.Proofs.DocumentUndo
import StoreGateway.Proofs.SingleAnswers

/-! What the calls of both stores may change: the record that they are for, and no other. -/

namespace StoreGateway

namespace EntityTable

/-- Entities by key, as they are read back. -/
def shelf : Shelf EntityTable Entity where
  kept := Keyed
  find t table key :=
    match key with
    | .entity partition row => t.find? table partition row
    | .document _ => none
  read e := e.read.toOption

variable {t : EntityTable} {table partition row : String} {keys : RecordKey → Prop}

theorem found_cases {key : RecordKey} {e : Entity} (found : shelf.find t table key = some e) :
    e ∈ t.entities ∧ e.table = table ∧ key = .entity e.partition e.row := by
  cases key with
  | document id => cases found
  | entity partition row =>
    obtain ⟨rfl, rfl, rfl⟩ := find?_keys found
    exact ⟨List.mem_of_find?_eq_some found, rfl, rfl⟩

theorem find_of_mem (keyed : t.Keyed) {e : Entity} (member : e ∈ t.entities) :
    shelf.find t e.table (.entity e.partition e.row) = some e :=
  find?_of_mem keyed.sorted member

theorem confined_place (keyed : t.Keyed) {e : Entity}
    (own : ∀ m ∈ e.properties, Entity.isProperty m.1 = true) (supply : Supply) :
    shelf.Confined e.table (· = .entity e.partition e.row) t
      { t with entities := place e t.entities, supply := supply } := by
  refine ⟨keyed.place own supply, fun name key apart => ?_⟩
  cases key with
  | document id => rfl
  | entity partition row =>
    have other : e.hasKey name partition row = false := by
      refine Bool.eq_false_iff.mpr fun same => apart ?_
      obtain ⟨rfl, rfl, rfl⟩ := Entity.hasKey_iff.mp same
      exact ⟨rfl, rfl⟩
    change (place e t.entities).find? _ = t.entities.find? _
    rw [find?_place, other]
    rfl

theorem confined_write (keyed : t.Keyed) (mode : WriteMode) (table partition row : String)
    (r : Record) :
    shelf.Confined table (· = .entity partition row) t
      (ran (write mode table partition row r) t).2 := by
  rw [ran_write_eq]
  cases outcome : (ran (load table partition row) t).1 >>= fun existing =>
      written mode partition row existing r with
  | error fault => exact Shelf.confined_refl keyed
  | ok properties =>
    exact confined_place (e := ⟨table, partition, row, properties, _⟩) keyed
      (own_of_load outcome) _

theorem confined_remove (keyed : t.Keyed) (table partition row : String) :
    shelf.Confined table (· = .entity partition row) t
      (ran (remove table partition row) t).2 := by
  refine ⟨keyed.remove table partition row, fun name key apart => ?_⟩
  cases key with
  | document id => rfl
  | entity partition' row' =>
    rw [EntityTable.remove, ran_bind_ok (ran_get t)]
    cases t.find? table partition row with
    | none => rfl
    | some e =>
      change (t.entities.filter fun e => !e.hasKey table partition row).find?
        (fun e => e.hasKey name partition' row') = t.entities.find? _
      rw [List.find?_filter]
      congr 1
      funext e
      cases asked : e.hasKey name partition' row' with
      | false => simp
      | true =>
        obtain ⟨rfl, rfl, rfl⟩ := Entity.hasKey_iff.mp asked
        have other : e.hasKey table partition row = false := by
          refine Bool.eq_false_iff.mpr fun same => apart ?_
          obtain ⟨rfl, rfl, rfl⟩ := Entity.hasKey_iff.mp same
          exact ⟨rfl, rfl⟩
        simp [other]

theorem keyOf_of_ownKey {r : Record} {partition row : String}
    (owned : ownKey r = .ok (partition, row)) :
    StoreKind.table.keyOf r none = .ok (.entity partition row) := by
  unfold ownKey at owned
  split at owned
  · next keyed =>
    cases owned
    exact keyed
  · cases owned
  · cases owned

theorem confined_writeOwn (keyed : t.Keyed) (mode : WriteMode) (table : String) {r : Record}
    (tells : ∀ key, StoreKind.table.keyOf r none = .ok key → keys key) :
    shelf.Confined table keys t (ran (writeOwn mode table r) t).2 := by
  rw [ran_writeOwn]
  cases owned : ownKey r with
  | error fault => exact Shelf.confined_refl keyed
  | ok parts =>
    obtain ⟨partition, row⟩ := parts
    exact (confined_write keyed mode table partition row r).among
      (tells _ (keyOf_of_ownKey owned))

theorem confined_writeAt (keyed : t.Keyed) (mode : WriteMode) (table : String) (key : RecordKey)
    (r : Record) : shelf.Confined table (· = key) t (ran (writeAt mode table key r) t).2 := by
  cases key with
  | document id => exact Shelf.confined_refl keyed
  | entity partition row => exact confined_write keyed mode table partition row r

theorem confined_delete (keyed : t.Keyed) (table : String) (key : RecordKey) :
    shelf.Confined table (· = key) t (ran (backend.delete table key) t).2 := by
  cases key with
  | document id => exact Shelf.confined_refl keyed
  | entity partition row => exact confined_remove keyed table partition row

theorem confined_apply (keyed : t.Keyed) (table : String) {w : Write} (within : w.Within .table keys) :
    shelf.Confined table keys t (ran (apply table w) t).2 := by
  have own (mode : WriteMode) (r : Record)
      (within : ∃ key, StoreKind.table.keyOf r none = .ok key ∧ keys key) :
      shelf.Confined table keys t (ran (writeOwn mode table r) t).2 := by
    obtain ⟨key, tells, inside⟩ := within
    refine confined_writeOwn keyed mode table fun other also => ?_
    rw [tells] at also
    cases also
    exact inside
  cases w with
  | insert r => exact own .insert r within
  | replace r => exact own .replace r within
  | upsert r => exact own .upsert r within
  | merge r => exact own .merge r within
  | delete key =>
    cases key with
    | document id => exact Shelf.confined_refl keyed
    | entity partition row =>
      change shelf.Confined table keys t (ran (EntityTable.remove table partition row >>= _) t).2
      exact ran_bind_keeps (P := shelf.Confined table keys t)
        ((confined_remove keyed table partition row).among within) fun _ _ confined => confined

theorem confined_applyAll (keyed : t.Keyed) (table : String) (index : Nat) {writes : List Write}
    (within : ∀ w ∈ writes, w.Within .table keys) :
    shelf.Confined table keys t (ran (applyAll table index writes) t).2 := by
  -- the induction is on the operations; each is applied to what the ones before it left
  induction writes generalizing t index with
  | nil => exact Shelf.confined_refl keyed
  | cons w rest ih =>
    rw [EntityTable.applyAll]
    refine ran_bind_keeps (P := shelf.Confined table keys t) ?_ fun r t' confined => ?_
    · exact ran_tryCatch_keeps (P := shelf.Confined table keys t)
        (confined_apply keyed table (within w List.mem_cons_self)) fun _ _ confined => confined
    · refine ran_bind_keeps (P := shelf.Confined table keys t) ?_ fun _ _ confined => confined
      exact confined.trans
        (ih confined.kept (index + 1) fun w member => within w (List.mem_cons_of_mem _ member))

theorem confined_submit (keyed : t.Keyed) (table : String) {writes : List Write}
    (within : ∀ w ∈ writes, w.Within .table keys) :
    shelf.Confined table keys t (ran (submit table writes) t).2 := by
  rcases ran_submit (t := t) table writes with ⟨fault, run⟩ | ⟨records, after, applied, run⟩
  · rw [run]
    exact Shelf.confined_refl keyed
  · have all := confined_applyAll keyed table 0 within
    rw [applied] at all
    rw [run]
    exact all

theorem was_of_load (keyed : t.Keyed) {r : Record}
    (loaded : (ran (load table partition row) t).1 = .ok (some r)) :
    shelf.Was table (.entity partition row) r := by
  unfold load at loaded
  rw [ran_bind_ok (ran_get t)] at loaded
  cases found : t.find? table partition row with
  | none =>
    rw [found] at loaded
    cases loaded
  | some e =>
    simp only [found] at loaded
    change (ran (liftM e.read >>= _) t).1 = _ at loaded
    rw [ran_bind, ran_lift] at loaded
    cases read : e.read with
    | error fault =>
      rw [read] at loaded
      cases loaded
    | ok r' =>
      rw [read] at loaded
      cases loaded
      exact ⟨t, e, keyed, found, by rw [show shelf.read e = e.read.toOption from rfl, read]; rfl⟩

theorem was_of_get (keyed : t.Keyed) {key : RecordKey} {r : Record}
    (got : (ran (backend.get table key) t).1 = .ok r) : shelf.Was table key r := by
  cases key with
  | document id => cases got
  | entity partition row =>
    rw [ran_get_entity] at got
    split at got
    · next loaded =>
      cases got
      exact was_of_load keyed (congrArg Prod.fst loaded)
    · cases got
    · cases got

/-- What a query finds are entities of its table that its filter, if it has one, holds for. -/
theorem mem_query {text : String} {limit : Option Nat} {records : List Record}
    (queried : (ran (query table ⟨text, [], limit⟩) t).1 = .ok records) :
    ∃ filter, Filter.parse [] text = .ok filter ∧ ∀ r ∈ records, ∃ e ∈ t.entities,
      e.table = table ∧ e.read = .ok r ∧ ∀ f, filter = some f → f.holds [] none r = .ok true := by
  obtain ⟨-, filter, found, selected⟩ := query_cases (Prod.ext queried rfl)
  refine ⟨filter, ?_, fun r member => ?_⟩
  · unfold filterOf at found
    simp only at found
    split at found
    · cases found
    · next parsed =>
      cases found
      exact parsed
    · next f parsed =>
      split at found
      · cases found
      · cases found
        exact parsed
  · obtain ⟨e, inside, read, kept⟩ := mem_select selected r member
    obtain ⟨inside, here⟩ := List.mem_filter.mp inside
    refine ⟨e, inside, eq_of_beq here, read, fun f is => ?_⟩
    subst is
    exact holds_of_keeps kept

theorem keys_of_mem (keyed : t.Keyed) {e : Entity} (member : e ∈ t.entities) {r : Record}
    (read : e.read = .ok r) :
    r.get? partitionKey = some (.string e.partition) ∧ r.get? rowKey = some (.string e.row) := by
  obtain ⟨q, own, rfl⟩ := record_of_read read (keyed.own e member)
  exact Entity.get?_record e own

theorem was_of_mem (keyed : t.Keyed) {e : Entity} (member : e ∈ t.entities) {r : Record}
    (read : e.read = .ok r) : shelf.Was e.table (.entity e.partition e.row) r :=
  ⟨t, e, keyed, find_of_mem keyed member, by
    rw [show shelf.read e = e.read.toOption from rfl, read]
    rfl⟩

theorem was_of_query (keyed : t.Keyed) {ids : List String} {records : List Record}
    (present : partition ≠ "") (any : ids ≠ [])
    (queried : (ran (query table (.ofText (Entity.idsFilter (some partition) ids))) t).1 =
      .ok records) :
    ∀ r ∈ records, ∀ row, r.get? rowKey = some (.string row) →
      shelf.Was table (.entity partition row) r := by
  intro r member row is
  obtain ⟨filter, parsed, found⟩ := mem_query queried
  obtain ⟨f, parses, holds⟩ := Entity.partition_of_idsFilter present any
  rw [parses] at parsed
  cases parsed
  obtain ⟨e, inside, rfl, read, kept⟩ := found r member
  have here := holds r (kept f rfl)
  obtain ⟨partition', row'⟩ := keys_of_mem keyed inside read
  rw [partition'] at here
  rw [row'] at is
  cases here
  cases is
  exact was_of_mem keyed inside read

theorem keyOf_of_keys {r : Record} {key : RecordKey}
    (partition' : r.get? partitionKey = some (.string partition))
    (row' : r.get? rowKey = some (.string row))
    (tells : StoreKind.table.keyOf r none = .ok key) : key = .entity partition row := by
  simp only [StoreKind.keyOf, Record.keyText?, partition', row', Value.keyText?, Option.none_or,
    Option.bind_some] at tells
  split at tells
  · cases tells
  · next p named =>
    cases (Option.filter_eq_some_iff.mp named).1
    split at tells
    · cases tells
    · next row'' named =>
      cases (Option.filter_eq_some_iff.mp named).1
      exact (Except.ok.inj tells).symm

theorem write_ok {mode : WriteMode} {r shown : Record}
    (wrote : (ran (write mode table partition row r) t).1 = .ok shown) :
    ∃ e : Entity, e.partition = partition ∧ e.row = row ∧ ∃ properties,
      shown = e.record properties ∧ ∀ m ∈ properties, Entity.isProperty m.1 = true := by
  change (ran (load table partition row >>= _) t).1 = _ at wrote
  rw [ran_bind] at wrote
  split at wrote
  · next existing t' _ =>
    change (ran (liftM (written mode partition row existing r) >>= _) t').1 = _ at wrote
    rw [ran_bind, ran_lift] at wrote
    cases properties : written mode partition row existing r with
    | error fault =>
      rw [properties] at wrote
      cases wrote
    | ok properties' =>
      rw [properties] at wrote
      cases wrote
      exact ⟨_, rfl, rfl, properties', rfl, own_written properties⟩
  · cases wrote

theorem key_of_inserted {s : EntityTable} {r created : Record} {key other : RecordKey}
    (tells : StoreKind.table.keyOf r none = .ok key)
    (inserted : (ran (writeOwn .insert table r) s).1 = .ok created)
    (also : StoreKind.table.keyOf created none = .ok other) : other = key := by
  rw [ran_writeOwn] at inserted
  cases owned : ownKey r with
  | error fault =>
    rw [owned] at inserted
    cases inserted
  | ok parts =>
    obtain ⟨partition, row⟩ := parts
    rw [owned] at inserted
    rw [keyOf_of_ownKey owned] at tells
    cases tells
    obtain ⟨e, rfl, rfl, properties, rfl, own⟩ := write_ok inserted
    obtain ⟨partition, row⟩ := Entity.get?_record e own
    exact keyOf_of_keys partition row also

theorem keyOf_of_was {key other : RecordKey} {r : Record} (was : shelf.Was table key r)
    (tells : StoreKind.table.keyOf r none = .ok other) : other = key := by
  obtain ⟨t, e, keyed, found, read⟩ := was
  obtain ⟨inside, -, rfl⟩ := found_cases found
  obtain ⟨partition, row⟩ := keys_of_mem keyed inside (ok_of_toOption read)
  exact keyOf_of_keys partition row tells

/-- The calls of the entity table change the entity that they are for, and no other. -/
theorem shelves : backend.Shelves shelf where
  query_same table q s := keeps_records.query_same table q s
  get_same table key s := keeps_records.get_same table key s
  get_was keyed got := was_of_get keyed got
  fetch_was _ present any keyed queried := was_of_query keyed present any queried
  replace table key r _ keyed := confined_writeAt keyed .replace table key r
  upsert table key r _ keyed := confined_writeAt keyed .upsert table key r
  merge table key r _ keyed := confined_writeAt keyed .merge table key r
  delete table key _ keyed := confined_delete keyed table key
  insert table _ _ _ keyed tells := confined_writeOwn keyed .insert table fun _ also =>
    Except.ok.inj (also.symm.trans tells)
  insert_key := key_of_inserted
  key_was := keyOf_of_was
  insert_again keyed was := confined_writeOwn keyed .insert _ fun _ tells => keyOf_of_was was tells
  submit keyed within := confined_submit keyed _ within

end EntityTable

namespace DocumentStore

/-- Documents in the order of their identifiers, none of them empty, with properties of names that
callers can set. -/
structure Listed (ds : List Document) : Prop where
  sorted : ds.Pairwise fun d e => d.id < e.id
  present : ∀ d ∈ ds, d.id ≠ ""
  own : ∀ d ∈ ds, ∀ m ∈ d.properties, Document.isProperty m.1 = true

/-- Collections in the order of their names, of documents in the order of their identifiers. -/
structure Keyed (s : DocumentStore) : Prop where
  sorted : s.collections.Pairwise fun c d => c.name < d.name
  listed : ∀ c ∈ s.collections, Listed c.documents

theorem keyed_empty (supply : Supply) : (empty supply).Keyed := ⟨List.Pairwise.nil, nofun⟩

theorem listed_nil : Listed [] := ⟨List.Pairwise.nil, nofun, nofun⟩

theorem sorted_placeDocument {d : Document} {ds : List Document}
    (sorted : ds.Pairwise fun d e => d.id < e.id) :
    (placeDocument d ds).Pairwise fun d e => d.id < e.id := by
  induction ds with
  | nil => exact List.pairwise_singleton _ _
  | cons e rest ih =>
    obtain ⟨before, later⟩ := List.pairwise_cons.mp sorted
    rw [placeDocument]
    split
    · next same =>
      refine List.pairwise_cons.mpr ⟨fun f member => ?_, later⟩
      rw [← same]
      exact before f member
    · next different =>
      split
      · next first =>
        refine List.pairwise_cons.mpr ⟨fun f member => ?_, sorted⟩
        rcases List.mem_cons.mp member with rfl | member
        · exact first
        · exact String.lt_trans first (before f member)
      · next behind =>
        refine List.pairwise_cons.mpr ⟨fun f member => ?_, ih later⟩
        rcases mem_placeDocument member with rfl | member
        · exact Record.lt_of_not (Ne.symm different) behind
        · exact before f member

theorem Listed.place {ds : List Document} (listed : Listed ds) {d : Document} (present : d.id ≠ "")
    (own : ∀ m ∈ d.properties, Document.isProperty m.1 = true) : Listed (placeDocument d ds) := by
  refine ⟨sorted_placeDocument listed.sorted, fun e member => ?_, fun e member => ?_⟩
  · rcases mem_placeDocument member with rfl | inside
    · exact present
    · exact listed.present e inside
  · rcases mem_placeDocument member with rfl | inside
    · exact own
    · exact listed.own e inside

theorem Listed.filter {ds : List Document} (listed : Listed ds) (keep : Document → Bool) :
    Listed (ds.filter keep) where
  sorted := listed.sorted.sublist List.filter_sublist
  present d member := listed.present d (List.mem_filter.mp member).1
  own d member := listed.own d (List.mem_filter.mp member).1

variable {s : DocumentStore} {name id : String} {r : Record}

theorem Keyed.documents (keyed : s.Keyed) (name : String) : Listed (s.documents name) := by
  unfold DocumentStore.documents
  cases which : s.collection? name with
  | none => exact listed_nil
  | some c => exact keyed.listed c (List.mem_of_find?_eq_some which)

theorem Keyed.updateIn (keyed : s.Keyed) {change : List Document → List Document}
    (supply : Supply) (kept : ∀ ds, Listed ds → Listed (change ds)) :
    Keyed ⟨DocumentStore.updateIn name change s.collections, supply⟩ := by
  refine ⟨sorted_updateIn keyed.sorted, fun c member => ?_⟩
  rcases mem_updateIn member with inside | ⟨-, new | ⟨c', inside, -, changed⟩⟩
  · exact keyed.listed c inside
  · rw [new]
    exact kept [] listed_nil
  · rw [changed]
    exact kept c'.documents (keyed.listed c' inside)

/-- Documents by key, as they are read back. -/
def shelf : Shelf DocumentStore Document where
  kept := Keyed
  find s name key :=
    match key with
    | .document id => s.document? name id
    | .entity _ _ => none
  read d := (reread d).toOption.map Document.toRecord

theorem found_cases {key : RecordKey} {d : Document} (found : shelf.find s name key = some d) :
    d ∈ s.documents name ∧ key = .document d.id := by
  cases key with
  | entity partition row => cases found
  | document id =>
    have found : (s.documents name).find? (·.id == id) = some d := found
    have same := List.find?_some found
    exact ⟨List.mem_of_find?_eq_some found, by rw [eq_of_beq same]⟩

theorem find?_of_mem {ds : List Document} (sorted : ds.Pairwise fun d e => d.id < e.id)
    {d : Document} (member : d ∈ ds) : ds.find? (·.id == d.id) = some d := by
  induction ds with
  | nil => cases member
  | cons first rest ih =>
    obtain ⟨before, later⟩ := List.pairwise_cons.mp sorted
    rw [List.find?_cons]
    rcases List.mem_cons.mp member with rfl | member
    · rw [beq_self_eq_true]
    · have other : first.id ≠ d.id := fun same => String.lt_irrefl d.id (same ▸ before d member)
      rw [beq_false_of_ne other]
      exact ih later member

theorem find_of_mem (keyed : s.Keyed) {d : Document} (member : d ∈ s.documents name) :
    shelf.find s name (.document d.id) = some d :=
  find?_of_mem (keyed.documents name).sorted member

theorem confined_updateIn (keyed : s.Keyed) {change : List Document → List Document}
    (supply : Supply) (kept : ∀ ds, Listed ds → Listed (change ds))
    (others : ∀ ds other, other ≠ id →
      (change ds).find? (·.id == other) = ds.find? (·.id == other)) :
    shelf.Confined name (· = .document id) s ⟨updateIn name change s.collections, supply⟩ := by
  refine ⟨keyed.updateIn supply kept, fun name' key apart => ?_⟩
  cases key with
  | entity partition row => rfl
  | document other =>
    change (documents ⟨updateIn name change s.collections, supply⟩ name').find? _ =
      (s.documents name').find? _
    rw [documents_updateIn keyed.sorted]
    by_cases here : name' = name
    · rw [if_pos here, here]
      exact others _ other fun same => apart ⟨here, by rw [same]⟩
    · rw [if_neg here]

theorem confined_touched (keyed : s.Keyed) (name : String) (keys : RecordKey → Prop) :
    shelf.Confined name keys s (touched name s) := by
  refine ⟨keyed.updateIn s.supply fun _ listed => listed, fun name' key _ => ?_⟩
  cases key with
  | entity partition row => rfl
  | document id =>
    change (documents ⟨updateIn name _ s.collections, s.supply⟩ name').find? _ = _
    rw [documents_updateIn keyed.sorted]
    by_cases here : name' = name
    · rw [if_pos here, here]
      rfl
    · rw [if_neg here]
      rfl

theorem confined_supply (keyed : s.Keyed) (name : String) (keys : RecordKey → Prop)
    (supply : Supply) : shelf.Confined name keys s { s with supply := supply } :=
  ⟨⟨keyed.sorted, keyed.listed⟩, fun _ _ _ => rfl⟩

theorem confined_write (keyed : s.Keyed) (name : String) {d : Document}
    (own : ∀ m ∈ d.properties, Document.isProperty m.1 = true) :
    shelf.Confined name (· = .document d.id) s (ran (write name d) s).2 := by
  have touch := confined_touched keyed name (· = .document d.id)
  rcases ran_write_cases name d s with ⟨fault, refused⟩ | ⟨fault, refused⟩ | ⟨short, checked, short_id⟩
  · rw [refused]
    exact Shelf.confined_refl keyed
  · rw [refused]
    exact touch
  · rw [ran_write d short checked short_id]
    refine touch.trans (confined_updateIn touch.kept s.supply
      (fun ds listed => listed.place (checkId_ne_empty checked) own) fun ds other different => ?_)
    rw [find?_placeDocument, if_neg different]

theorem own_withId (id : String) (r : Record) (stamp : String) :
    ∀ m ∈ (Document.withId id r stamp).properties, Document.isProperty m.1 = true :=
  fun _ member => (List.mem_filter.mp member).2

theorem confined_upsert (keyed : s.Keyed) (name id : String) (r : Record) :
    shelf.Confined name (· = .document id) s (ran (upsert name id r) s).2 := by
  rw [upsert, ran_bind_ok ran_stamp]
  have supplied := confined_supply keyed name (· = .document id) s.supply.stamp.2
  refine ran_bind_keeps (P := shelf.Confined name (· = .document id) s) ?_
    fun _ _ confined => confined
  exact supplied.trans (confined_write supplied.kept name (own_withId id r _))

theorem confined_replace (keyed : s.Keyed) (name id : String) (r : Record) :
    shelf.Confined name (· = .document id) s (ran (replace name id r) s).2 := by
  rcases ran_replace_cases name id r s with ⟨fault, refused⟩ | ⟨d, -, -, same⟩
  · rw [refused]
    exact Shelf.confined_refl keyed
  · rw [same]
    exact confined_upsert keyed name id r

theorem confined_delete (keyed : s.Keyed) (name id : String) :
    shelf.Confined name (· = .document id) s (ran (delete name id) s).2 := by
  rcases ran_delete_cases name id s with ⟨fault, refused, -⟩ | ⟨d, -, -, deleted⟩
  · rw [refused]
    exact Shelf.confined_refl keyed
  · rw [deleted]
    refine confined_updateIn keyed s.supply (fun ds listed => listed.filter _)
      fun ds other different => ?_
    rw [List.find?_filter]
    congr 1
    funext e
    by_cases same : e.id = other <;> simp [same, different]

theorem find_ok {d : Document} (found : (ran (find name id) s).1 = .ok d) :
    ∃ e, s.document? name id = some e ∧ reread e = .ok d := by
  rcases ran_find_cases name id s with ⟨fault, failed, -⟩ | ⟨e, d', -, there, read, got⟩
  · rw [failed] at found
    cases found
  · rw [got] at found
    cases found
    exact ⟨e, there, read⟩

theorem reread_ok {d e : Document} (read : reread e = .ok d) :
    d.id = e.id ∧ d.properties.map Prod.fst = e.properties.map Prod.fst := by
  unfold reread at read
  cases once : Json.rereadRecord e.properties with
  | error fault =>
    rw [once] at read
    cases read
  | ok q =>
    rw [once] at read
    cases read
    exact ⟨rfl, EntityTable.names_reread once⟩

theorem own_reread (keyed : s.Keyed) {d e : Document} (member : e ∈ s.documents name)
    (read : reread e = .ok d) : ∀ m ∈ d.properties, Document.isProperty m.1 = true :=
  Record.all_of_names (P := fun name => Document.isProperty name = true)
    ((keyed.documents name).own e member) (reread_ok read).2

theorem confined_merge (keyed : s.Keyed) (name id : String) (r : Record) :
    shelf.Confined name (· = .document id) s (ran (merge name id r) s).2 := by
  have looked : ran (find name id) s = ((ran (find name id) s).1, s) :=
    Prod.ext rfl (ran_find_same name id s)
  cases outcome : (ran (find name id) s).1 with
  | error fault =>
    rw [outcome] at looked
    rw [merge, ran_bind_error looked]
    exact Shelf.confined_refl keyed
  | ok d =>
    rw [outcome] at looked
    rw [merge, ran_bind_ok looked, ran_bind_ok ran_stamp]
    obtain ⟨e, found, read⟩ := find_ok outcome
    have shelved : shelf.find s name (.document id) = some e := found
    have there := found_cases shelved
    have is : d.id = id := (reread_ok read).1.trans (RecordKey.document.inj there.2).symm
    have supplied := confined_supply keyed name (· = .document id) s.supply.stamp.2
    refine ran_bind_keeps (P := shelf.Confined name (· = .document id) s) ?_
      fun _ _ confined => confined
    have own : ∀ m ∈ (d.merge r s.supply.stamp.1).properties, Document.isProperty m.1 = true := by
      intro m member
      rcases Record.mem_extend member with inside | inside
      · exact own_reread keyed there.1 read m inside
      · exact (List.mem_filter.mp inside).2
    have written := confined_write supplied.kept name own
    rw [Document.merge_id, is] at written
    exact supplied.trans written

theorem confined_insert (keyed : s.Keyed) (name : String) (r : Record) :
    shelf.Confined name (· = .document (Document.ofRecord r s.supply).1.id) s
      (ran (insert name r) s).2 := by
  have supplied := confined_supply keyed name
    (· = .document (Document.ofRecord r s.supply).1.id) (Document.ofRecord r s.supply).2
  rcases ran_insert_cases name r s with ⟨fault, refused⟩ | ⟨-, -, same⟩
  · rw [refused]
    exact supplied
  · rw [same]
    refine ran_bind_keeps (P := shelf.Confined name _ s) ?_ fun _ _ confined => confined
    exact supplied.trans (confined_write supplied.kept name (own_withId _ r _))

/-- A record that says its identifier is inserted under it. -/
theorem ofRecord_id {key : RecordKey} (tells : StoreKind.document.keyOf r none = .ok key)
    (supply : Supply) : key = .document (Document.ofRecord r supply).1.id ∧
      (Document.ofRecord r supply).1.id ≠ "" := by
  simp only [StoreKind.keyOf, Record.keyText?] at tells
  split at tells
  · cases tells
  · next id named =>
    cases tells
    obtain ⟨text, present⟩ := Option.filter_eq_some_iff.mp named
    obtain ⟨v, there, text⟩ := Option.bind_eq_some_iff.mp text
    have own : Document.idOf? r = some id := by
      unfold Document.idOf?
      rw [there]
      split
      · next empty =>
        cases empty
        cases text
        cases present
      · next v' _ same =>
        cases same
        exact text
      · next none => cases none
    unfold Document.ofRecord
    rw [own]
    exact ⟨rfl, of_decide_eq_true present⟩

theorem insert_ok {d : Document} (inserted : (ran (insert name r) s).1 = .ok d) :
    d = (Document.ofRecord r s.supply).1 := by
  rcases ran_insert_cases name r s with ⟨fault, refused⟩ | ⟨-, -, same⟩
  · rw [refused] at inserted
    cases inserted
  · rw [same, ran_bind] at inserted
    split at inserted
    · cases inserted
      rfl
    · cases inserted

theorem confined_named {α : Type} {keys : RecordKey → Prop} {call : DocumentCall α}
    (keyed : s.Keyed) (confined : shelf.Confined name keys s (ran call s).2) :
    shelf.Confined name keys s (ran (named name call) s).2 := by
  rw [ran_named]
  cases checkName name with
  | error fault => exact Shelf.confined_refl keyed
  | ok done => exact confined

theorem confined_keyed (keyed : s.Keyed) (key : RecordKey) {call : String → DocumentCall Document}
    (confined : ∀ id, shelf.Confined name (· = .document id) s (ran (call id) s).2) :
    shelf.Confined name (· = key) s (ran (DocumentStore.keyed name key call) s).2 := by
  cases key with
  | entity partition row => exact Shelf.confined_refl keyed
  | document id =>
    change shelf.Confined _ _ s (ran (named name (call id) >>= _) s).2
    exact ran_bind_keeps (P := shelf.Confined name (· = .document id) s)
      (confined_named keyed (confined id)) fun _ _ confined => confined

theorem was_of_get (keyed : s.Keyed) {key : RecordKey}
    (got : (ran (backend.get name key) s).1 = .ok r) : shelf.Was name key r := by
  cases key with
  | entity partition row => cases got
  | document id =>
    change (ran (DocumentStore.keyed name (.document id) (find name)) s).1 = _ at got
    rw [ran_keyed] at got
    split at got
    · cases got
    · split at got
      · cases got
      · next d after looked =>
        cases got
        obtain ⟨e, found, read⟩ := find_ok (congrArg Prod.fst looked)
        refine ⟨s, e, keyed, found, ?_⟩
        rw [show shelf.read e = (reread e).toOption.map Document.toRecord from rfl, read]
        rfl

theorem keyOf_of_was {key : RecordKey} (was : shelf.Was name key r) :
    StoreKind.document.keyOf r none = .ok key := by
  obtain ⟨s, e, keyed, found, read⟩ := was
  obtain ⟨member, rfl⟩ := found_cases found
  obtain ⟨d, same, rfl⟩ := Option.map_eq_some_iff.mp read
  have read := ok_of_toOption same
  rw [← (reread_ok read).1]
  refine Document.keyOf_toRecord (own_reread keyed member read) ?_
  rw [(reread_ok read).1]
  exact (keyed.documents name).present e member

theorem key_of_inserted {created : Record} {key other : RecordKey}
    (tells : StoreKind.document.keyOf r none = .ok key)
    (inserted : (ran (backend.insert name r) s).1 = .ok created)
    (also : StoreKind.document.keyOf created none = .ok other) : other = key := by
  change (ran (named name (insert name r) >>= _) s).1 = _ at inserted
  rw [ran_bind, ran_named] at inserted
  cases valid : checkName name with
  | error fault =>
    rw [valid] at inserted
    cases inserted
  | ok done =>
    rw [valid] at inserted
    cases outcome : (ran (insert name r) s).1 with
    | error fault =>
      simp only [outcome] at inserted
      cases inserted
    | ok d =>
      simp only [outcome] at inserted
      cases inserted
      cases insert_ok outcome
      obtain ⟨rfl, present⟩ := ofRecord_id tells s.supply
      have shown : StoreKind.document.keyOf (Document.ofRecord r s.supply).1.toRecord none = _ :=
        Document.keyOf_toRecord (own_withId _ r _) present
      exact Except.ok.inj (also.symm.trans shown)

/-- The calls of the document store change the document that they are for, and no other. -/
theorem shelves : backend.Shelves shelf where
  query_same name q s := keeps_records.query_same name q s
  get_same name key s := keeps_records.get_same name key s
  get_was keyed got := was_of_get keyed got
  fetch_was table := by cases table
  replace name key r _ keyed := confined_keyed keyed key fun id => confined_replace keyed name id r
  upsert name key r _ keyed := confined_keyed keyed key fun id => confined_upsert keyed name id r
  merge name key r _ keyed := confined_keyed keyed key fun id => confined_merge keyed name id r
  delete name key _ keyed := by
    cases key with
    | entity partition row => exact Shelf.confined_refl keyed
    | document id => exact confined_named keyed (confined_delete keyed name id)
  insert name _ s r keyed tells := by
    rw [(ofRecord_id tells s.supply).1]
    exact ran_bind_keeps (P := shelf.Confined name _ s)
      (confined_named keyed (confined_insert keyed name r)) fun _ _ confined => confined
  insert_key := key_of_inserted
  key_was was tells := Except.ok.inj (tells.symm.trans (keyOf_of_was was))
  insert_again {name key s r} keyed was := by
    rw [(ofRecord_id (keyOf_of_was was) s.supply).1]
    exact ran_bind_keeps (P := shelf.Confined name _ s)
      (confined_named keyed (confined_insert keyed name r)) fun _ _ confined => confined
  submit keyed _ := Shelf.confined_refl keyed

end DocumentStore

end StoreGateway

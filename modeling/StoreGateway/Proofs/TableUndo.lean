import StoreGateway.Proofs.OrderedRecords
import StoreGateway.Proofs.Records
import StoreGateway.Proofs.Undo
import StoreGateway.Table.Store

/-! What the calls of the entity table do to the entities kept. -/

namespace StoreGateway

namespace Entity

abbrev Properties (q : Record) : Prop := Record.Stored isProperty q

abbrev Shown (q : Record) : Prop := Record.Shown isProperty q

theorem propertiesOf_record (e : Entity) {q : Record} (ordered : q.Ordered)
    (own : ∀ m ∈ q, isProperty m.1 = true) : propertiesOf (e.record q) = q := by
  have first : partitionKey < rowKey := by decide
  have second : rowKey < StoreGateway.timestamp := by decide
  refine Record.filter_extend ?_ ordered ?_ own
  · refine List.pairwise_cons.mpr ⟨fun m member => ?_, List.pairwise_cons.mpr ⟨fun m member => ?_,
      List.pairwise_singleton _ _⟩⟩
    · rcases List.mem_cons.mp member with same | member
      · rw [same]
        exact first
      · rw [List.mem_singleton.mp member]
        exact String.lt_trans first second
    · rw [List.mem_singleton.mp member]
      exact second
  · intro m member
    simp only [List.mem_cons, List.not_mem_nil, or_false] at member
    rcases member with rfl | rfl | rfl <;> rfl

theorem get?_record (e : Entity) {q : Record} (own : ∀ m ∈ q, isProperty m.1 = true) :
    (e.record q).get? partitionKey = some (.string e.partition) ∧
      (e.record q).get? rowKey = some (.string e.row) := by
  have absent (name : String) (key : isProperty name = false) : ∀ m ∈ q, m.1 ≠ name := by
    intro m member same
    have is := own m member
    rw [same, key] at is
    cases is
  constructor
  · rw [record, Record.get?_extend_of_not_mem _ _ _ (absent partitionKey rfl)]
    rfl
  · rw [record, Record.get?_extend_of_not_mem _ _ _ (absent rowKey rfl)]
    rfl

theorem keyOf_record {e : Entity} {q : Record} (own : ∀ m ∈ q, isProperty m.1 = true)
    (partition : e.partition ≠ "") (row : e.row ≠ "") :
    StoreKind.table.keyOf (e.record q) none = .ok (.entity e.partition e.row) := by
  have keys := get?_record e own
  simp [StoreKind.keyOf, keys.1, Record.keyText?, keys.2, Value.keyText?, partition, row,
    Option.filter]

theorem hasKey_iff {e : Entity} {table partition row : String} :
    e.hasKey table partition row = true ↔
      e.table = table ∧ e.partition = partition ∧ e.row = row := by
  simp [hasKey, and_assoc]

theorem precedes_iff {e f : Entity} : e.precedes f = true ↔
    e.table < f.table ∨ (e.table = f.table ∧
      (e.partition < f.partition ∨ (e.partition = f.partition ∧ e.row < f.row))) := by
  have less (a b : String) : compare a b = .lt ↔ a < b := compareOfLessAndEq_eq_lt
  simp only [precedes, beq_iff_eq, Ordering.then_eq_lt, less, Std.LawfulEqOrd.compare_eq_iff_eq]

theorem precedes_trans {e f g : Entity} (first : e.precedes f = true) (second : f.precedes g = true) :
    e.precedes g = true := by
  rw [precedes_iff] at first second ⊢
  rcases first with table | ⟨table, partition | ⟨partition, row⟩⟩
  · rcases second with table' | ⟨table', -⟩
    · exact .inl (String.lt_trans table table')
    · exact .inl (table' ▸ table)
  · rcases second with table' | ⟨table', partition' | ⟨partition', -⟩⟩
    · exact .inl (table ▸ table')
    · exact .inr ⟨table.trans table', .inl (String.lt_trans partition partition')⟩
    · exact .inr ⟨table.trans table', .inl (partition' ▸ partition)⟩
  · rcases second with table' | ⟨table', partition' | ⟨partition', row'⟩⟩
    · exact .inl (table ▸ table')
    · exact .inr ⟨table.trans table', .inl (partition ▸ partition')⟩
    · exact .inr ⟨table.trans table', .inr ⟨partition.trans partition', String.lt_trans row row'⟩⟩

theorem hasKey_of_precedes {e f : Entity} (before : e.precedes f = true) :
    f.hasKey e.table e.partition e.row = false := by
  refine Bool.eq_false_iff.mpr fun same => ?_
  obtain ⟨table, partition, row⟩ := hasKey_iff.mp same
  rw [precedes_iff, table, partition, row] at before
  rcases before with less | ⟨-, less | ⟨-, less⟩⟩ <;> exact String.lt_irrefl _ less

theorem precedes_of_not {e f : Entity} (different : ¬ f.hasKey e.table e.partition e.row = true)
    (not_before : ¬ e.precedes f = true) : f.precedes e = true := by
  rw [hasKey_iff] at different
  rw [precedes_iff] at not_before ⊢
  by_cases table : f.table = e.table
  · refine .inr ⟨table, ?_⟩
    by_cases partition : f.partition = e.partition
    · refine .inr ⟨partition, Record.lt_of_not (fun row => ?_) fun less => ?_⟩
      · exact different ⟨table, partition, row.symm⟩
      · exact not_before (.inr ⟨table.symm, .inr ⟨partition.symm, less⟩⟩)
    · exact .inl (Record.lt_of_not (Ne.symm partition) fun less =>
        not_before (.inr ⟨table.symm, .inl less⟩))
  · exact .inl (Record.lt_of_not (Ne.symm table) fun less => not_before (.inl less))

end Entity

namespace EntityTable

/-- The properties of all entities by key. -/
def contents (t : EntityTable) : Contents := fun table key =>
  match key with
  | .entity partition row =>
    (t.find? table partition row).bind fun e => (Json.rereadRecord e.properties).toOption
  | .document _ => none

/-- Entities in order, with properties as they are stored. -/
structure Sound (t : EntityTable) : Prop where
  sorted : t.entities.Pairwise fun e f => e.precedes f = true
  properties : ∀ e ∈ t.entities, Entity.Properties e.properties

def keeping : Keeping EntityTable where
  sound := Sound
  view := contents
  fits r := r.Ordered ∧ r.Settled
  addresses _ key := ∃ partition row, key = .entity partition row
  returns key := ∀ partition row, key = .entity partition row → partition ≠ "" ∧ row ≠ ""
  shows key prior q :=
    Entity.Shown q ∧ ∃ e : Entity, key = .entity e.partition e.row ∧ prior = e.record q

theorem find?_place (e : Entity) (es : List Entity) (table partition row : String) :
    (place e es).find? (fun f => f.hasKey table partition row) =
      if e.hasKey table partition row then some e
      else es.find? fun f => f.hasKey table partition row := by
  induction es with
  | nil =>
    rw [place, List.find?_cons]
    cases e.hasKey table partition row <;> rfl
  | cons f rest ih =>
    rw [place]
    by_cases same : f.hasKey e.table e.partition e.row = true
    · have keys := Entity.hasKey_iff.mp same
      have equal : f.hasKey table partition row = e.hasKey table partition row := by
        simp only [Entity.hasKey, keys.1, keys.2.1, keys.2.2]
      rw [if_pos same, List.find?_cons, List.find?_cons, equal]
      cases e.hasKey table partition row <;> rfl
    · rw [if_neg same]
      by_cases before : e.precedes f = true
      · rw [if_pos before, List.find?_cons]
        cases e.hasKey table partition row <;> rfl
      · rw [if_neg before, List.find?_cons, List.find?_cons, ih]
        cases here : f.hasKey table partition row with
        | false => rfl
        | true =>
          have different : ¬ e.hasKey table partition row = true := by
            intro also
            have keys := Entity.hasKey_iff.mp here
            have keys' := Entity.hasKey_iff.mp also
            exact same (Entity.hasKey_iff.mpr ⟨keys.1.trans keys'.1.symm,
              keys.2.1.trans keys'.2.1.symm, keys.2.2.trans keys'.2.2.symm⟩)
          rw [if_neg different, if_neg different]

theorem mem_place {e f : Entity} {es : List Entity} (member : f ∈ place e es) :
    f = e ∨ f ∈ es := by
  induction es with
  | nil => exact .inl (List.mem_singleton.mp member)
  | cons g rest ih =>
    rw [place] at member
    split at member
    · rcases List.mem_cons.mp member with same | member
      · exact .inl same
      · exact .inr (List.mem_cons_of_mem g member)
    · split at member
      · exact List.mem_cons.mp member
      · rcases List.mem_cons.mp member with same | member
        · rw [same]
          exact .inr List.mem_cons_self
        · rcases ih member with same | inside
          · exact .inl same
          · exact .inr (List.mem_cons_of_mem g inside)

theorem sorted_place {e : Entity} {es : List Entity}
    (sorted : es.Pairwise fun e f => e.precedes f = true) :
    (place e es).Pairwise fun e f => e.precedes f = true := by
  induction es with
  | nil => exact List.pairwise_singleton _ _
  | cons f rest ih =>
    have split := List.pairwise_cons.mp sorted
    rw [place]
    by_cases same : f.hasKey e.table e.partition e.row = true
    · have keys := Entity.hasKey_iff.mp same
      rw [if_pos same]
      refine List.pairwise_cons.mpr ⟨fun g member => ?_, split.2⟩
      have after := split.1 g member
      rw [Entity.precedes_iff, keys.1, keys.2.1, keys.2.2] at after
      exact Entity.precedes_iff.mpr after
    · rw [if_neg same]
      by_cases before : e.precedes f = true
      · rw [if_pos before]
        refine List.pairwise_cons.mpr ⟨fun g member => ?_, sorted⟩
        rcases List.mem_cons.mp member with rfl | member
        · exact before
        · exact Entity.precedes_trans before (split.1 g member)
      · rw [if_neg before]
        refine List.pairwise_cons.mpr ⟨fun g member => ?_, ih split.2⟩
        rcases mem_place member with here | inside
        · rw [here]
          exact Entity.precedes_of_not same before
        · exact split.1 g inside

/-- Putting an entity in its place sets its properties and no others. -/
theorem sets_place {t : EntityTable} (sound : t.Sound) {e : Entity} {q : Record} {supply : Supply}
    (properties : Entity.Properties e.properties)
    (read : Json.rereadRecord e.properties = .ok q) :
    keeping.Sets e.table (.entity e.partition e.row) (some q) t
      { t with entities := place e t.entities, supply := supply } := by
  refine ⟨⟨sorted_place sound.sorted, fun f member => ?_⟩, ?_⟩
  · rcases mem_place member with same | inside
    · rw [same]
      exact properties
    · exact sound.properties f inside
  · funext table key
    cases key with
    | document id => simp [keeping, contents, Contents.set]
    | entity partition row =>
      change (List.find? _ (place e t.entities)).bind _ = _
      rw [find?_place]
      by_cases here : e.hasKey table partition row = true
      · obtain ⟨rfl, rfl, rfl⟩ := Entity.hasKey_iff.mp here
        rw [if_pos here]
        simp only [Option.bind_some, read]
        exact (Contents.set_here _ _ _ _).symm
      · rw [if_neg here]
        have other : ¬ (table = e.table ∧ RecordKey.entity partition row =
            .entity e.partition e.row) := by
          rintro ⟨rfl, same⟩
          cases same
          exact here (Entity.hasKey_iff.mpr ⟨rfl, rfl, rfl⟩)
        simp only [Contents.set, if_neg other]
        rfl

variable {t t' : EntityTable} {table partition row : String} {r : Record}

theorem find?_keys {e : Entity} (found : t.find? table partition row = some e) :
    e.table = table ∧ e.partition = partition ∧ e.row = row := by
  unfold find? at found
  have has := List.find?_some found
  exact Entity.hasKey_iff.mp has

theorem read_of_contents (sound : t.Sound) {q : Record}
    (present : t.contents table (.entity partition row) = some q) :
    ∃ e, t.find? table partition row = some e ∧ e.read = .ok (e.record q) ∧ e.table = table ∧
      e.partition = partition ∧ e.row = row ∧ Entity.Shown q := by
  cases found : t.find? table partition row with
  | none =>
    rw [contents, found] at present
    cases present
  | some e =>
    have read : Json.rereadRecord e.properties = .ok q := by
      rw [contents, found] at present
      exact ok_of_toOption present
    have keys := find?_keys found
    obtain ⟨q', once, shown⟩ := (sound.properties e (List.mem_of_find?_eq_some found)).reread
    rw [read] at once
    cases once
    refine ⟨e, rfl, ?_, keys.1, keys.2.1, keys.2.2, shown⟩
    rw [Entity.read, read]

theorem find?_none_of_contents (sound : t.Sound)
    (absent : t.contents table (.entity partition row) = none) :
    t.find? table partition row = none := by
  cases found : t.find? table partition row with
  | none => rfl
  | some e =>
    obtain ⟨q, once, -⟩ := (sound.properties e (List.mem_of_find?_eq_some found)).reread
    rw [contents, found] at absent
    rw [Option.bind_some, once] at absent
    cases absent

theorem ran_load_present (sound : t.Sound) {q : Record}
    (present : t.contents table (.entity partition row) = some q) :
    ∃ e : Entity, e.partition = partition ∧ e.row = row ∧ Entity.Shown q ∧
      ran (load table partition row) t = (.ok (some (e.record q)), t) := by
  obtain ⟨e, found, read, -, first, second, shown⟩ := read_of_contents sound present
  refine ⟨e, first, second, shown, ?_⟩
  rw [load, ran_bind_ok (ran_get t), found]
  change ran (liftM e.read >>= _) t = _
  rw [ran_bind, ran_lift, read]
  rfl

theorem ran_load_absent (sound : t.Sound)
    (absent : t.contents table (.entity partition row) = none) :
    ran (load table partition row) t = (.ok none, t) := by
  rw [load, ran_bind_ok (ran_get t), find?_none_of_contents sound absent]
  rfl

theorem ran_load (sound : t.Sound) (table partition row : String) :
    ∃ existing, ran (load table partition row) t = (.ok existing, t) ∧
      (existing = none ↔ t.contents table (.entity partition row) = none) ∧
      ∀ current, existing = some current → Entity.Properties (Entity.propertiesOf current) := by
  cases found : t.contents table (.entity partition row) with
  | none => exact ⟨none, ran_load_absent sound found, by simp, nofun⟩
  | some q =>
    obtain ⟨e, -, -, shown, loaded⟩ := ran_load_present sound found
    refine ⟨some (e.record q), loaded, by simp, fun current same => ?_⟩
    cases same
    rw [Entity.propertiesOf_record e shown.ordered shown.own]
    exact shown.toStored

theorem properties_written {mode : WriteMode} {existing : Option Record} {properties : Record}
    (fits : r.Ordered ∧ r.Settled)
    (current : ∀ current, existing = some current →
      Entity.Properties (Entity.propertiesOf current))
    (written : written mode partition row existing r = .ok properties) :
    Entity.Properties properties := by
  have own : Entity.Properties (Entity.propertiesOf r) := Record.stored_filter fits.1 fits.2
  cases mode <;> cases existing <;> cases written
  · exact own
  · exact own
  · exact own
  · exact own
  · exact (current _ rfl).extend own

/-- A write fails and changes nothing, or sets the properties of its key. -/
theorem ran_write (sound : t.Sound) (fits : r.Ordered ∧ r.Settled) (mode : WriteMode)
    (table partition row : String) :
    (∃ fault, ran (write mode table partition row r) t = (.error fault, t)) ∨
      ∃ e : Entity, e.partition = partition ∧ e.row = row ∧ ∃ properties q after,
        ran (write mode table partition row r) t = (.ok (e.record properties), after) ∧
        keeping.Sets table (.entity partition row) (some q) t after ∧
        Entity.Properties properties ∧
        (mode = .insert → t.contents table (.entity partition row) = none) ∧
        (mode = .replace ∨ mode = .merge → t.contents table (.entity partition row) ≠ none) := by
  obtain ⟨existing, loaded, missing, current⟩ := ran_load sound table partition row
  rw [write, ran_bind_ok loaded]
  cases outcome : written mode partition row existing r with
  | error fault => exact .inl ⟨fault, rfl⟩
  | ok properties =>
    have stored := properties_written fits current outcome
    obtain ⟨q, read, -⟩ := stored.reread
    refine .inr ⟨⟨table, partition, row, properties, t.supply.stamp.1⟩, rfl, rfl, properties, q, _,
      rfl, sets_place sound stored read, stored, fun insert => ?_, fun update => ?_⟩
    · rw [insert] at outcome
      cases existing with
      | none => exact missing.mp rfl
      | some current => cases outcome
    · intro absent
      rw [missing.mpr absent] at outcome
      rcases update with rfl | rfl <;> cases outcome

theorem sets_filter (sound : t.Sound) (table partition row : String) :
    keeping.Sets table (.entity partition row) none t
      { t with entities := t.entities.filter fun e => !e.hasKey table partition row } := by
  refine ⟨⟨sound.sorted.filter _, fun e member =>
    sound.properties e (List.mem_filter.mp member).1⟩, ?_⟩
  funext other key
  cases key with
  | document id => simp [keeping, contents, Contents.set]
  | entity partition' row' =>
    change (List.find? _ (List.filter _ t.entities)).bind _ = _
    rw [List.find?_filter]
    simp only [Bool.decide_and, Bool.decide_eq_true]
    by_cases here : other = table ∧ RecordKey.entity partition' row' = .entity partition row
    · obtain ⟨rfl, same⟩ := here
      cases same
      have gone : t.entities.find? (fun e => !e.hasKey other partition row &&
          e.hasKey other partition row) = none := by
        simp
      rw [gone, Contents.set_here]
      rfl
    · have kept : (fun e : Entity => !e.hasKey table partition row &&
          e.hasKey other partition' row') = fun e => e.hasKey other partition' row' := by
        funext e
        cases has : e.hasKey other partition' row' with
        | false => rw [Bool.and_false]
        | true =>
          have keys := Entity.hasKey_iff.mp has
          have different : e.hasKey table partition row = false := by
            refine Bool.eq_false_iff.mpr fun also => here ?_
            have keys' := Entity.hasKey_iff.mp also
            refine ⟨keys.1.symm.trans keys'.1, ?_⟩
            rw [← keys.2.1, ← keys.2.2, keys'.2.1, keys'.2.2]
          rw [different]
          rfl
      rw [kept]
      simp only [Contents.set, if_neg here]
      rfl

theorem ran_remove (sound : t.Sound) (table partition row : String) :
    (∃ fault, ran (remove table partition row) t = (.error fault, t) ∧
      t.contents table (.entity partition row) = none) ∨
      ∃ after, ran (remove table partition row) t = (.ok (), after) ∧
        t.contents table (.entity partition row) ≠ none ∧
        keeping.Sets table (.entity partition row) none t after := by
  cases found : t.contents table (.entity partition row) with
  | none =>
    refine .inl ⟨missing partition row, ?_, rfl⟩
    rw [remove, ran_bind_ok (ran_get t), find?_none_of_contents sound found]
    rfl
  | some q =>
    obtain ⟨e, inside, -⟩ := read_of_contents sound found
    refine .inr ⟨_, ?_, nofun, sets_filter sound table partition row⟩
    rw [remove, ran_bind_ok (ran_get t), inside]
    rfl

/-- A key that a record says has two parts that are not empty, also where the partition is given. -/
theorem keyOf_ok {given : Option String} {partition row : String}
    (keyed : StoreKind.table.keyOf r given = .ok (.entity partition row)) :
    partition ≠ "" ∧ row ≠ "" := by
  unfold StoreKind.keyOf at keyed
  simp only at keyed
  split at keyed
  · cases keyed
  · next p first =>
    cases second : r.keyText? rowKey with
    | none =>
      rw [second] at keyed
      cases keyed
    | some q =>
      rw [second] at keyed
      cases keyed
      exact ⟨by simpa using (Option.filter_eq_some_iff.mp first).2,
        by simpa using (Option.filter_eq_some_iff.mp second).2⟩

theorem ownKey_ok {partition row : String} (owned : ownKey r = .ok (partition, row)) :
    partition ≠ "" ∧ row ≠ "" := by
  unfold ownKey at owned
  cases keyed : StoreKind.table.keyOf r none with
  | error fault =>
    rw [keyed] at owned
    cases owned
  | ok key =>
    rw [keyed] at owned
    cases key with
    | document id => cases owned
    | entity p q =>
      cases owned
      exact keyOf_ok keyed

theorem ran_writeOwn (mode : WriteMode) (table : String) (r : Record) :
    ran (writeOwn mode table r) t = match ownKey r with
      | .ok (partition, row) => ran (write mode table partition row r) t
      | .error fault => (.error fault, t) := by
  rw [writeOwn]
  cases ownKey r <;> rfl

theorem writeAt_ok (sound : t.Sound) (fits : r.Ordered ∧ r.Settled) {mode : WriteMode}
    {key : RecordKey} {shown : Record} (run : ran (writeAt mode table key r) t = (.ok shown, t')) :
    (mode = .replace ∨ mode = .merge → t.contents table key ≠ none) ∧
      ∃ q, keeping.Sets table key (some q) t t' := by
  cases key with
  | document id => cases run
  | entity partition row =>
    change ran (write mode table partition row r) t = _ at run
    rcases ran_write sound fits mode table partition row with
      ⟨fault, failed⟩ | ⟨e, -, -, properties, q, after, written, sets, -, -, update⟩
    · rw [failed] at run
      cases run
    · rw [written] at run
      cases run
      exact ⟨update, q, sets⟩

theorem writeAt_error (sound : t.Sound) (fits : r.Ordered ∧ r.Settled) {mode : WriteMode}
    {key : RecordKey} {fault : StoreFault}
    (run : ran (writeAt mode table key r) t = (.error fault, t')) : keeping.Unchanged t t' := by
  cases key with
  | document id =>
    cases run
    exact ⟨sound, rfl⟩
  | entity partition row =>
    change ran (write mode table partition row r) t = _ at run
    rcases ran_write sound fits mode table partition row with
      ⟨fault, failed⟩ | ⟨e, -, -, properties, q, after, written, -⟩
    · rw [failed] at run
      cases run
      exact ⟨sound, rfl⟩
    · rw [written] at run
      cases run

theorem insert_ok (sound : t.Sound) (fits : r.Ordered ∧ r.Settled) {created : Record}
    (run : ran (writeOwn .insert table r) t = (.ok created, t')) :
    ∃ key q, StoreKind.table.keyOf created none = .ok key ∧ t.contents table key = none ∧
      keeping.Sets table key (some q) t t' := by
  rw [ran_writeOwn] at run
  cases owned : ownKey r with
  | error fault =>
    rw [owned] at run
    cases run
  | ok keys =>
    obtain ⟨partition, row⟩ := keys
    rw [owned] at run
    change ran (write .insert table partition row r) t = _ at run
    have present := ownKey_ok owned
    rcases ran_write sound fits .insert table partition row with
      ⟨fault, failed⟩ | ⟨e, rfl, rfl, properties, q, after, written, sets, stored, new, -⟩
    · rw [failed] at run
      cases run
    · rw [written] at run
      cases run
      exact ⟨_, q, Entity.keyOf_record stored.own present.1 present.2, new rfl, sets⟩

theorem insert_error (sound : t.Sound) (fits : r.Ordered ∧ r.Settled) {fault : StoreFault}
    (run : ran (writeOwn .insert table r) t = (.error fault, t')) : keeping.Unchanged t t' := by
  rw [ran_writeOwn] at run
  cases owned : ownKey r with
  | error fault =>
    rw [owned] at run
    cases run
    exact ⟨sound, rfl⟩
  | ok keys =>
    obtain ⟨partition, row⟩ := keys
    rw [owned] at run
    have refused : ran (writeAt .insert table (.entity partition row) r) t = (.error fault, t') := run
    exact writeAt_error sound fits refused

theorem sets_shown (sound : t.Sound) {e : Entity} {q : Record} (shown : Entity.Shown q)
    {mode : WriteMode} (writes : ∀ existing, ran (load table e.partition e.row) t =
      (.ok existing, t) → written mode e.partition e.row existing (e.record q) =
        .ok (Entity.propertiesOf (e.record q))) :
    keeping.Sets table (.entity e.partition e.row) (some q) t
      (ran (write mode table e.partition e.row (e.record q)) t).2 := by
  obtain ⟨existing, loaded, -, -⟩ := ran_load sound table e.partition e.row
  rw [write, ran_bind_ok loaded, writes existing loaded,
    Entity.propertiesOf_record e shown.ordered shown.own]
  exact sets_place (e := ⟨table, e.partition, e.row, q, t.supply.stamp.1⟩) sound
    shown.toStored shown.same

theorem delete_ok (sound : t.Sound) {key : RecordKey} {done : Unit}
    (run : ran (backend.delete table key) t = (.ok done, t')) :
    t.contents table key ≠ none ∧ keeping.Sets table key none t t' := by
  cases key with
  | document id => cases run
  | entity partition row =>
    change ran (remove table partition row) t = _ at run
    rcases ran_remove sound table partition row with ⟨fault, failed, -⟩ | ⟨after, removed, there, sets⟩
    · rw [failed] at run
      cases run
    · rw [removed] at run
      cases run
      exact ⟨there, sets⟩

theorem delete_error (sound : t.Sound) {key : RecordKey} {fault : StoreFault}
    (run : ran (backend.delete table key) t = (.error fault, t')) : keeping.Unchanged t t' := by
  cases key with
  | document id =>
    cases run
    exact ⟨sound, rfl⟩
  | entity partition row =>
    change ran (remove table partition row) t = _ at run
    rcases ran_remove sound table partition row with ⟨fault, failed, -⟩ | ⟨after, removed, -⟩
    · rw [failed] at run
      cases run
      exact ⟨sound, rfl⟩
    · rw [removed] at run
      cases run

theorem ran_get_entity (table partition row : String) :
    ran (backend.get table (.entity partition row)) t = match ran (load table partition row) t with
      | (.ok (some r), after) => (.ok r, after)
      | (.ok none, after) => (.error (missing partition row), after)
      | (.error fault, after) => (.error fault, after) := by
  change ran (load table partition row >>= _) t = _
  rw [ran_bind]
  rcases ran (load table partition row) t with ⟨outcome, after⟩
  rcases outcome with fault | _ | r <;> rfl

theorem ran_load_same (table partition row : String) :
    (ran (load table partition row) t).2 = t := by
  rw [load, ran_bind_ok (ran_get t)]
  cases t.find? table partition row with
  | none => rfl
  | some e =>
    change (ran (liftM e.read >>= _) t).2 = t
    rw [ran_bind, ran_lift]
    cases e.read <;> rfl

theorem find?_of_load (loaded : ran (load table partition row) t = (.ok none, t')) :
    t' = t ∧ t.find? table partition row = none := by
  have same := ran_load_same (t := t) table partition row
  rw [loaded] at same
  refine ⟨same, ?_⟩
  rw [load, ran_bind_ok (ran_get t)] at loaded
  cases found : t.find? table partition row with
  | none => rfl
  | some e =>
    rw [found] at loaded
    change ran (liftM e.read >>= _) t = _ at loaded
    rw [ran_bind, ran_lift] at loaded
    cases read : e.read with
    | error fault =>
      rw [read] at loaded
      cases loaded
    | ok r =>
      rw [read] at loaded
      cases loaded

/-- A write by what it finds. -/
theorem ran_write_eq (mode : WriteMode) (table partition row : String) (r : Record)
    (t : EntityTable) : ran (write mode table partition row r) t =
      match (ran (load table partition row) t).1 >>= fun existing =>
          written mode partition row existing r with
      | .ok properties =>
        let e : Entity := ⟨table, partition, row, properties, t.supply.stamp.1⟩
        (.ok (e.record properties),
          { t with entities := place e t.entities, supply := t.supply.stamp.2 })
      | .error fault => (.error fault, t) := by
  have same := ran_load_same (t := t) table partition row
  rcases loaded : ran (load table partition row) t with ⟨outcome, after⟩
  rw [loaded] at same
  obtain rfl : after = t := same
  cases outcome with
  | error fault => exact ran_bind_error loaded
  | ok existing =>
    rw [write, ran_bind_ok loaded]
    change ran (liftM (written mode partition row existing r) >>= _) after =
      match written mode partition row existing r with
      | .ok properties => _
      | .error fault => _
    rw [ran_bind, ran_lift]
    cases written mode partition row existing r <;> rfl

theorem ran_write_refused {mode : WriteMode} {r : Record} {fault : StoreFault}
    (refused : ((ran (load table partition row) t).1 >>= fun existing =>
      written mode partition row existing r) = .error fault) :
    ran (write mode table partition row r) t = (.error fault, t) := by
  rw [ran_write_eq, refused]

theorem ran_remove_eq (table partition row : String) (t : EntityTable) :
    ran (EntityTable.remove table partition row) t =
      if (t.find? table partition row).isNone then (.error (missing partition row), t)
      else (.ok (),
        { t with entities := t.entities.filter fun e => !e.hasKey table partition row }) := by
  rw [EntityTable.remove, ran_bind_ok (ran_get t)]
  cases (t.find? table partition row).isNone <;> rfl

theorem get_same (table : String) (key : RecordKey) : (ran (backend.get table key) t).2 = t := by
  cases key with
  | document id => rfl
  | entity partition row =>
    have same := ran_load_same (t := t) table partition row
    rw [ran_get_entity]
    rcases loaded : ran (load table partition row) t with ⟨outcome, after⟩
    rw [loaded] at same
    rcases outcome with fault | _ | r <;> exact same

theorem get_ok (sound : t.Sound) {key : RecordKey} {prior : Record}
    (got : (ran (backend.get table key) t).1 = .ok prior) :
    ∃ q, t.contents table key = some q ∧ keeping.shows key prior q := by
  cases key with
  | document id => cases got
  | entity partition row =>
    rw [ran_get_entity] at got
    cases found : t.contents table (.entity partition row) with
    | none =>
      rw [ran_load_absent sound found] at got
      cases got
    | some q =>
      obtain ⟨e, rfl, rfl, shown, loaded⟩ := ran_load_present sound found
      rw [loaded] at got
      cases got
      exact ⟨q, rfl, shown, e, rfl, rfl⟩

theorem get_missing (sound : t.Sound) {key : RecordKey} {what : String}
    (got : (ran (backend.get table key) t).1 = .error (.notFound what)) :
    t.contents table key = none := by
  cases key with
  | document id => rfl
  | entity partition row =>
    rw [ran_get_entity] at got
    cases found : t.contents table (.entity partition row) with
    | none => rfl
    | some q =>
      obtain ⟨e, -, -, -, loaded⟩ := ran_load_present sound found
      rw [loaded] at got
      cases got

theorem query_same (table : String) (q : NativeQuery) : (ran (query table q) t).2 = t := by
  change (ran (liftM (filterOf q) >>= _) t).2 = t
  rw [ran_bind, ran_lift]
  cases filterOf q with
  | error fault => rfl
  | ok filter =>
    change (ran (get >>= _) t).2 = t
    rw [ran_bind_ok (ran_get t)]
    exact congrArg Prod.snd (ran_lift _ t)

/-- A batch is refused, or made as a whole, or given up as a whole. -/
theorem ran_submit (table : String) (writes : List Write) :
    (∃ fault, ran (submit table writes) t = (.error fault, t)) ∨
      ∃ records after, ran (applyAll table 0 writes) t = (.ok records, after) ∧
        ran (submit table writes) t = (.ok records, after) := by
  have attempted : ran (tryCatch (applyAll table 0 writes) fun fault => do
      set t
      throw fault) t = match ran (applyAll table 0 writes) t with
      | (.ok records, after) => (.ok records, after)
      | (.error fault, _) => (.error fault, t) := by
    rw [ran_tryCatch]
    rcases ran (applyAll table 0 writes) t with ⟨outcome, after⟩
    cases outcome <;> rfl
  rw [submit, ran_bind_ok (ran_get t)]
  by_cases long : t.maxBatch < writes.length
  · rw [if_pos long]
    exact .inl ⟨_, ran_bind_error (ran_throw _ t)⟩
  · rw [if_neg long]
    by_cases apart : (!samePartition writes) = true
    · rw [if_pos apart]
      exact .inl ⟨_, ran_bind_error (ran_throw _ t)⟩
    · rw [if_neg apart]
      change (∃ fault, ran (tryCatch (applyAll table 0 writes) _) t = _) ∨ ∃ records after, _ ∧
        ran (tryCatch (applyAll table 0 writes) _) t = _
      rw [attempted]
      rcases applied : ran (applyAll table 0 writes) t with ⟨outcome, after⟩
      cases outcome with
      | error fault => exact .inl ⟨fault, rfl⟩
      | ok records => exact .inr ⟨records, after, rfl, rfl⟩

theorem length_applyAll {index : Nat} {writes : List Write} {records : List Record}
    (run : ran (applyAll table index writes) t = (.ok records, t')) :
    records.length = writes.length := by
  induction writes generalizing t index records with
  | nil =>
    cases run
    rfl
  | cons w rest ih =>
    rw [applyAll] at run
    rcases first : ran (tryCatch (apply table w) fun fault => throw (.batch index fault)) t with
      ⟨outcome, after⟩
    cases outcome with
    | error fault =>
      rw [ran_bind_error first] at run
      cases run
    | ok r =>
      rw [ran_bind_ok first] at run
      rcases others : ran (applyAll table (index + 1) rest) after with ⟨outcome, last⟩
      cases outcome with
      | error fault =>
        rw [ran_bind_error others] at run
        cases run
      | ok more =>
        rw [ran_bind_ok others] at run
        cases run
        rw [List.length_cons, List.length_cons, ih others]

theorem submit_error {writes : List Write} {fault : StoreFault}
    (run : ran (submit table writes) t = (.error fault, t')) : t' = t := by
  rcases ran_submit (t := t) table writes with ⟨fault, failed⟩ | ⟨records, after, -, done⟩
  · rw [failed] at run
    cases run
    rfl
  · rw [done] at run
    cases run

theorem submit_ok {writes : List Write} {records : List Record}
    (run : ran (submit table writes) t = (.ok records, t')) : records.length = writes.length := by
  rcases ran_submit (t := t) table writes with ⟨fault, failed⟩ | ⟨records, after, applied, done⟩
  · rw [failed] at run
    cases run
  · rw [done] at run
    cases run
    exact length_applyAll applied

/-- The entity table keeps records by their keys. A record comes back under keys that are not
empty. -/
theorem keeps_records : backend.Keeps keeping where
  query_same _ _ _ := query_same _ _
  get_same _ _ _ := get_same _ _
  get_ok sound got := get_ok sound got
  get_missing sound got := get_missing sound got
  insert_ok sound fits run := insert_ok sound fits run
  insert_error sound fits run := insert_error sound fits run
  replace_ok sound fits run := by
    obtain ⟨there, q, sets⟩ := writeAt_ok sound fits run
    exact ⟨there (.inl rfl), q, sets⟩
  replace_error sound fits run := writeAt_error sound fits run
  upsert_ok sound fits run := (writeAt_ok sound fits run).2
  upsert_error sound fits run := writeAt_error sound fits run
  merge_ok sound fits run := by
    obtain ⟨there, q, sets⟩ := writeAt_ok sound fits run
    exact ⟨there (.inr rfl), q, sets⟩
  merge_error sound fits run := writeAt_error sound fits run
  delete_ok sound run := delete_ok sound run
  delete_error sound run := delete_error sound run
  submit_ok run := submit_ok run
  submit_error sound run := by
    rw [submit_error run]
    exact ⟨sound, rfl⟩
  addressed := by
    intro table key t _ there
    cases key with
    | document id => exact absurd rfl there
    | entity partition row => exact ⟨partition, row, rfl⟩
  deletes := by
    intro table key t sound there
    cases key with
    | document id => exact absurd rfl there
    | entity partition row =>
      change keeping.Sets _ _ _ t (ran (remove table partition row) t).2
      rcases ran_remove sound table partition row with ⟨_, -, absent⟩ | ⟨after, removed, -, sets⟩
      · exact absurd absent there
      · rw [removed]
        exact sets
  upserts := by
    intro table key t prior q sound _ shows
    obtain ⟨shown, e, rfl, rfl⟩ := shows
    refine sets_shown sound shown fun existing _ => ?_
    cases existing <;> rfl
  -- what is inserted is placed by its own fields, which are those of the key when it is returned
  inserts := by
    intro table key t prior q sound _ returns shows absent
    obtain ⟨shown, e, rfl, rfl⟩ := shows
    have present := returns e.partition e.row rfl
    change keeping.Sets _ _ _ t (ran (writeOwn .insert table (e.record q)) t).2
    rw [ran_writeOwn, ownKey, Entity.keyOf_record shown.own present.1 present.2]
    refine sets_shown sound shown fun existing loaded => ?_
    rw [ran_load_absent sound absent] at loaded
    cases loaded
    rfl

end EntityTable

end StoreGateway

import StoreGateway.Gateway.Basic
import StoreGateway.Proofs.Answers
import StoreGateway.Proofs.OrderedRecords
import StoreGateway.Proofs.Records
import StoreGateway.Proofs.Views
import StoreGateway.Table.Store

/-!
The partition that a gateway gives to the records of requests that name none. Main statement: every
record is sent there, over the partition that it names itself, so that records stay in their own
partitions only where no other is named.
-/

namespace StoreGateway

variable {σ : Type}

namespace Executor

def inPartition (e : Executor σ) (given : Option String) : Executor σ :=
  { e with options := { e.options with partition := given } }

theorem inPartition_execute {e : Executor σ} {given : Option String} {ops ops' : List Operation}
    (verbs : ops'.map Operation.verb = ops.map Operation.verb)
    (items : (e.inPartition given).items ops' = e.items ops) :
    (e.inPartition given).execute ops' = e.execute ops := by
  have sees : (e.inPartition given).Sees id e := ⟨.refl e.backend, rfl, rfl, rfl, rfl⟩
  exact (sees_execute sees rfl rfl verbs items).eq

end Executor

namespace Record

/-- The record with the partition, where it is not the record of a write that has nothing to write. -/
def inPartition (verb : Verb) (p : String) (r : Record) : Record :=
  let kept := r.erase timestamp
  if verb.needsRecord ∧ kept = [] then kept else kept.insert partitionKey (.string p)

def partitionOr (d : String) (r : Record) : String := (r.keyText? partitionKey).getD d

/-- The record as it is where it names a partition, and else in the default one. -/
def orInPartition (verb : Verb) (d : String) (r : Record) : Record :=
  if (r.keyText? partitionKey).isSome then r else r.inPartition verb d

/-- Whether the record names the default partition if it names a key. -/
def Follows (d : String) (r : Record) : Prop :=
  ∀ p row, r.keyText? partitionKey = some p → r.keyText? rowKey = some row → p = d

/-- What is sent for a record in a partition. -/
def placed (verb : Verb) (p : String) (index : Nat) (r : Record) : Except RequestError Prepared :=
  if verb.needsRecord ∧ r.erase timestamp = [] then .error (.badRequest .noRecord)
  else
    match r.keyText? rowKey with
    | none => .error (.missingIdentifier (.key .noRow))
    | some row => .ok ⟨index, verb, some (.entity p row),
        Executor.completed verb ((r.erase timestamp).insert partitionKey (.string p))
          (some (.entity p row))⟩

theorem erase_insert_of_erased (r : Record) {name other : String} (v : Value) (apart : name ≠ other) :
    ((r.erase other).insert name v).erase other = (r.erase other).insert name v := by
  refine List.filter_eq_self.mpr fun m member => bne_iff_ne.mpr ?_
  rcases mem_insert member with rfl | inside
  · exact apart
  · exact bne_iff_ne.mp (List.mem_filter.mp inside).2

theorem insert_ne_nil (r : Record) (name : String) (v : Value) : r.insert name v ≠ [] := by
  intro empty
  have found := get?_insert r name v name
  rw [empty, if_pos rfl] at found
  cases found

theorem keyText?_erase (r : Record) {name other : String} (apart : name ≠ other) :
    (r.erase other).keyText? name = r.keyText? name := by
  unfold keyText? erase
  rw [get?_filter_of_keeps fun m _ same => bne_iff_ne.mpr (same ▸ apart)]

theorem keyText?_insert (r : Record) {name other : String} (v : Value) (apart : other ≠ name) :
    (r.insert name v).keyText? other = r.keyText? other := by
  unfold keyText?
  rw [get?_insert, if_neg apart]

theorem partitionOr_ne (r : Record) {d : String} (named : d ≠ "") : r.partitionOr d ≠ "" := by
  unfold partitionOr
  cases own : r.keyText? partitionKey with
  | none => exact named
  | some p =>
    have kept := (Option.filter_eq_some_iff.mp own).2
    simpa using kept

theorem keyOf_insert (r : Record) {p : String} (named : p ≠ "") {given : Option String}
    (same : given = some p ∨ given = none) :
    StoreKind.table.keyOf (r.insert partitionKey (.string p)) given =
      match r.keyText? rowKey with
      | none => .error .noRow
      | some row => .ok (.entity p row) := by
  have own : ((r.insert partitionKey (.string p)).get? partitionKey).bind Value.keyText? = some p := by
    rw [get?_insert, if_pos rfl]
    rfl
  have first : (given.or (((r.insert partitionKey (.string p)).get? partitionKey).bind
      Value.keyText?)).filter (· ≠ "") = some p := by
    rw [own]
    rcases same with rfl | rfl <;> simp [Option.filter, named]
  have apart : rowKey ≠ partitionKey := by decide
  unfold StoreKind.keyOf
  cases named : r.keyText? rowKey <;> simp only [first, keyText?_insert r _ apart, named]

end Record

namespace Operation

variable {p : String} (verb : Verb) (index : Nat) (r : Record)

theorem prepare_keyless (given : Option String) :
    prepare .table given ⟨index, verb, none, some r⟩ =
      let r' := normalised .table given r
      if verb.needsRecord ∧ r' = [] then .error (.badRequest .noRecord)
      else
        match StoreKind.table.keyOf r' given with
        | .ok key => .ok ⟨index, verb, some key, Executor.completed verb r' (some key)⟩
        | .error fault => .error (.missingIdentifier (.key fault)) := by
  unfold prepare keyFor
  simp only [Option.getD_some]
  by_cases refused : verb.needsRecord = true ∧ normalised .table given r = []
  · rw [if_pos refused, if_pos refused]
    rfl
  · rw [if_neg refused, if_neg refused]
    cases StoreKind.table.keyOf (normalised .table given r) given with
    | ok key => rfl
    | error fault =>
      have never : ¬ (verb = .create ∧ StoreKind.table = StoreKind.document) := by simp
      simp only [if_neg never]
      rfl

theorem prepare_given (named : p ≠ "") :
    prepare .table (some p) ⟨index, verb, none, some r⟩ = r.placed verb p index := by
  have apart : rowKey ≠ timestamp := by decide
  rw [prepare_keyless, Record.placed, ← r.keyText?_erase apart]
  unfold normalised
  simp only
  by_cases nothing : r.erase timestamp = []
  · have rowless : StoreKind.table.keyOf [] (some p) = .error .noRow := by
      simp [StoreKind.keyOf, Option.filter, named, Record.keyText?, Record.get?]
    rw [nothing, if_pos rfl, rowless]
    rfl
  · rw [if_neg nothing, Record.keyOf_insert _ named (.inl rfl),
      if_neg fun refused => Record.insert_ne_nil _ _ _ refused.2, if_neg fun refused => nothing refused.2]
    cases (r.erase timestamp).keyText? rowKey <;> rfl

theorem prepare_inPartition (named : p ≠ "") :
    prepare .table none ⟨index, verb, none, some (r.inPartition verb p)⟩ =
      r.placed verb p index := by
  have apart : rowKey ≠ timestamp := by decide
  rw [prepare_keyless, Record.placed, ← r.keyText?_erase apart]
  unfold normalised Record.inPartition
  simp only
  by_cases refused : verb.needsRecord = true ∧ r.erase timestamp = []
  · rw [if_pos refused, if_pos refused, refused.2]
    exact if_pos ⟨refused.1, rfl⟩
  · have still : ((r.erase timestamp).insert partitionKey (.string p)).erase timestamp =
        (r.erase timestamp).insert partitionKey (.string p) :=
      r.erase_insert_of_erased (.string p) (by decide)
    rw [if_neg refused, if_neg refused, still, Record.keyOf_insert _ named (.inr rfl),
      if_neg fun refused => Record.insert_ne_nil _ _ _ refused.2]
    cases (r.erase timestamp).keyText? rowKey <;> rfl

theorem prepare_own (own : r.keyText? partitionKey = some p) :
    (prepare .table none ⟨index, verb, none, some r⟩).map Prepared.key =
      (r.placed verb p index).map Prepared.key := by
  have kept : (r.erase timestamp).keyText? partitionKey = some p := by
    rw [r.keyText?_erase (by decide : partitionKey ≠ timestamp), own]
  have something : r.erase timestamp ≠ [] := by
    intro nothing
    rw [nothing] at kept
    cases kept
  rw [prepare_keyless, Record.placed, ← r.keyText?_erase (by decide : rowKey ≠ timestamp)]
  unfold normalised StoreKind.keyOf
  have first : (none.or (((r.erase timestamp).get? partitionKey).bind Value.keyText?)).filter
      (· ≠ "") = some p := kept
  simp only [first]
  rw [if_neg fun refused => something refused.2, if_neg fun refused => something refused.2]
  cases (r.erase timestamp).keyText? rowKey <;> rfl

theorem prepare_orInPartition {d : String} (named : d ≠ "") :
    (prepare .table none ⟨index, verb, none, some (r.orInPartition verb d)⟩).map Prepared.key =
      (r.placed verb (r.partitionOr d) index).map Prepared.key := by
  unfold Record.orInPartition Record.partitionOr
  cases own : r.keyText? partitionKey with
  | none => exact congrArg (Except.map Prepared.key) (prepare_inPartition verb index r named)
  | some p => exact prepare_own verb index r own

theorem verbs_ofRecords (records : List Record) (f : Record → Record) :
    (ofRecords verb (records.map f)).map Operation.verb =
      (ofRecords verb records).map Operation.verb := by
  unfold ofRecords
  rw [List.zipIdx_map, List.map_map, List.map_map, List.map_map]
  rfl

end Operation

namespace Record

variable {d : String} {r : Record}

theorem placed_congr {p q : String} (verb : Verb) (index : Nat)
    (same : ∀ row, r.keyText? rowKey = some row → p = q) :
    r.placed verb p index = r.placed verb q index := by
  unfold placed
  cases named : r.keyText? rowKey with
  | none => rfl
  | some row => rw [same row named]

theorem same_of_placed_key {p q : String} {verb : Verb} {index : Nat}
    (same : (r.placed verb p index).map Prepared.key = (r.placed verb q index).map Prepared.key)
    {row : String} (named : r.keyText? rowKey = some row) : p = q := by
  have apart : rowKey ≠ timestamp := by decide
  have sent : ¬ (verb.needsRecord = true ∧ r.erase timestamp = []) := by
    intro refused
    rw [← r.keyText?_erase apart, refused.2] at named
    cases named
  unfold placed at same
  rw [if_neg sent, if_neg sent, named] at same
  have keys : some (RecordKey.entity p row) = some (RecordKey.entity q row) := Except.ok.inj same
  exact (RecordKey.entity.inj (Option.some.inj keys)).1

theorem follows_iff : r.Follows d ↔ ∀ row, r.keyText? rowKey = some row → d = r.partitionOr d := by
  unfold Follows partitionOr
  cases r.keyText? partitionKey with
  | none => exact ⟨fun _ _ _ => rfl, fun _ _ _ same => by cases same⟩
  | some p =>
    constructor
    · intro follows row named
      exact (follows p row rfl named).symm
    · intro stays p' row same named
      cases same
      exact (stays row named).symm

end Record

theorem Executor.items_ofRecords {e : Executor σ} (kind : e.backend.kind = .table)
    {f : Record → Record} {p : Record → String} (verb : Verb) (records : List Record)
    (prepared : ∀ index r, Operation.prepare .table e.options.partition
      ⟨index, verb, none, some (f r)⟩ = r.placed verb (p r) index) :
    e.items (Operation.ofRecords verb (records.map f)) =
      records.zipIdx.map fun m => (m.2, m.1.placed verb (p m.1) m.2) := by
  unfold Executor.items Operation.ofRecords
  rw [List.zipIdx_map, List.map_map, List.map_map, kind]
  exact List.map_congr_left fun m _ => congrArg (Prod.mk m.2) (prepared m.2 m.1)

namespace Gateway

variable {g : Gateway σ} {o : RequestOptions} {d : String}

/-- The keys that the records of a request are sent to, or why one is not sent. -/
def addresses (g : Gateway σ) (table : String) (verb : Verb) (records : List Record)
    (o : RequestOptions) : List (Except RequestError (Option RecordKey)) :=
  ((g.executor table o .idsOnly).items (Operation.ofRecords verb records)).map fun item =>
    item.2.map Prepared.key

/-- The request with the default partition, as far as the records need it. -/
structure Defaulting (g : Gateway σ) (o : RequestOptions) (d : String) : Prop where
  kind : g.backend.kind = .table
  default : g.defaultPartition = some d
  named : d ≠ ""
  free : o.partitionText = none

theorem Defaulting.partition (defaulting : Defaulting g o d) : g.partition o = some d := by
  unfold Gateway.partition Gateway.kind
  rw [defaulting.kind, defaulting.free, defaulting.default]
  rfl

theorem Defaulting.executor (defaulting : Defaulting g o d) (table : String) :
    (g.withDefaultPartition none).executor table o .idsOnly =
      (g.executor table o .idsOnly).inPartition none := by
  have none : (g.withDefaultPartition none).partition o = none := by
    have kind : (g.withDefaultPartition Option.none).kind = .table := defaulting.kind
    unfold Gateway.partition
    rw [kind, defaulting.free]
    rfl
  unfold Gateway.executor
  rw [none]
  rfl

theorem Defaulting.items (defaulting : Defaulting g o d) (table : String) (verb : Verb)
    (records : List Record) :
    (g.executor table o .idsOnly).items (Operation.ofRecords verb records) =
      records.zipIdx.map fun m => (m.2, m.1.placed verb d m.2) := by
  have partition : (g.executor table o .idsOnly).options.partition = some d := defaulting.partition
  have prepared (index : Nat) (r : Record) :
      Operation.prepare .table (g.executor table o .idsOnly).options.partition
        ⟨index, verb, none, some (id r)⟩ = r.placed verb d index := by
    rw [partition]
    exact Operation.prepare_given verb index r defaulting.named
  rw [← Executor.items_ofRecords defaulting.kind verb records prepared, List.map_id]

theorem items_inPartition (kind : g.backend.kind = .table) (table : String) (verb : Verb)
    {p : Record → String} (named : ∀ r, p r ≠ "") (records : List Record) :
    ((g.executor table o .idsOnly).inPartition none).items
        (Operation.ofRecords verb (records.map fun r => r.inPartition verb (p r))) =
      records.zipIdx.map fun m => (m.2, m.1.placed verb (p m.1) m.2) :=
  Executor.items_ofRecords kind verb records fun index r =>
    Operation.prepare_inPartition verb index r (named r)

/-- Records may be put in any partitions that do not change what is sent for them. -/
theorem Defaulting.mutateRecords (defaulting : Defaulting g o d) (table : String) (verb : Verb)
    (records : List Record) {p : Record → String} (named : ∀ r, p r ≠ "")
    (same : ∀ r ∈ records, ∀ row, r.keyText? rowKey = some row → d = p r) :
    g.mutateRecords table verb records o = (g.withDefaultPartition none).mutateRecords table verb
      (records.map fun r => r.inPartition verb (p r)) o := by
  have items := items_inPartition (g := g) (o := o) defaulting.kind table verb named records
  have sent : records.zipIdx.map (fun m => (m.2, m.1.placed verb (p m.1) m.2)) =
      records.zipIdx.map fun m => (m.2, m.1.placed verb d m.2) := by
    refine List.map_congr_left fun m member => congrArg (Prod.mk m.2) ?_
    have inside : m.1 ∈ records := List.fst_mem_of_mem_zipIdx member
    exact (Record.placed_congr verb m.2 (same m.1 inside)).symm
  rw [sent, ← defaulting.items table verb records] at items
  have executed := Executor.inPartition_execute
    (Operation.verbs_ofRecords verb records fun r => r.inPartition verb (p r)) items
  unfold Gateway.mutateRecords Gateway.run
  rw [List.isEmpty_map, defaulting.executor, executed]

theorem Defaulting.addresses (defaulting : Defaulting g o d) (table : String) (verb : Verb)
    (records : List Record) : g.addresses table verb records o =
      records.zipIdx.map fun m => (m.1.placed verb d m.2).map Prepared.key := by
  unfold Gateway.addresses
  rw [defaulting.items, List.map_map]
  rfl

theorem addresses_orInPartition (defaulting : Defaulting g o d) (table : String) (verb : Verb)
    (records : List Record) : (g.withDefaultPartition none).addresses table verb
        (records.map fun r => r.orInPartition verb d) o =
      records.zipIdx.map fun m => (m.1.placed verb (m.1.partitionOr d) m.2).map Prepared.key := by
  have kind : ((g.executor table o .idsOnly).inPartition none).backend.kind = .table :=
    defaulting.kind
  unfold Gateway.addresses
  rw [defaulting.executor]
  unfold Executor.items Operation.ofRecords
  rw [List.zipIdx_map, List.map_map, List.map_map, List.map_map, kind]
  exact List.map_congr_left fun m _ =>
    Operation.prepare_orInPartition verb m.2 m.1 defaulting.named

theorem addressed_iff (defaulting : Defaulting g o d) (table : String) (verb : Verb)
    (records : List Record) : g.addresses table verb records o =
        (g.withDefaultPartition none).addresses table verb
          (records.map fun r => r.orInPartition verb d) o ↔
      ∀ r ∈ records, r.Follows d := by
  rw [defaulting.addresses, addresses_orInPartition defaulting, List.map_inj_left]
  constructor
  · intro same r member
    obtain ⟨index, small, is⟩ := List.getElem_of_mem member
    have inside : (r, index) ∈ records.zipIdx := by
      rw [List.mk_mem_zipIdx_iff_getElem?, ← is]
      exact List.getElem?_eq_getElem small
    exact Record.follows_iff.mpr fun row named => Record.same_of_placed_key (same _ inside) named
  · intro follows m member
    have inside : m.1 ∈ records := List.fst_mem_of_mem_zipIdx member
    exact congrArg (Except.map Prepared.key)
      (Record.placed_congr verb m.2 (Record.follows_iff.mp (follows m.1 inside)))

/-- A default partition goes over the partitions that records name: it is as if the records of the
request were all put there. Where they say they are is where they are sent exactly if none that has a
row key names another partition, and the whole request then ends as it says. -/
theorem default_partition_over_own (defaulting : Defaulting g o d) (table : String) (verb : Verb)
    (records : List Record) :
    g.mutateRecords table verb records o = (g.withDefaultPartition none).mutateRecords table verb
        (records.map fun r => r.inPartition verb d) o ∧
      (g.addresses table verb records o = (g.withDefaultPartition none).addresses table verb
          (records.map fun r => r.orInPartition verb d) o ↔ ∀ r ∈ records, r.Follows d) ∧
      ((∀ r ∈ records, r.Follows d) →
        g.mutateRecords table verb records o = (g.withDefaultPartition none).mutateRecords table verb
          (records.map fun r => r.inPartition verb (r.partitionOr d)) o) := by
  refine ⟨?_, addressed_iff defaulting table verb records, fun follows => ?_⟩
  · exact defaulting.mutateRecords table verb records (fun _ => defaulting.named) fun _ _ _ _ => rfl
  · exact defaulting.mutateRecords table verb records (fun r => r.partitionOr_ne defaulting.named)
      fun r member => Record.follows_iff.mp (follows r member)

def defaulted : Gateway EntityTable := (Gateway.new EntityTable.backend).withDefaultPartition "D"

def mixed : List Record :=
  [[(partitionKey, .string "P"), (rowKey, .string "1")], [(rowKey, .string "2")]]

theorem default_partition_over_own_of_two :
    Defaulting defaulted .none "D" ∧
      defaulted.mutateRecords "t" .delete mixed .none =
        (defaulted.withDefaultPartition none).mutateRecords "t" .delete
          [[(partitionKey, .string "D"), (rowKey, .string "1")],
            [(partitionKey, .string "D"), (rowKey, .string "2")]] .none := by
  have defaulting : Defaulting defaulted .none "D" := ⟨rfl, rfl, by decide, rfl⟩
  exact ⟨defaulting, (default_partition_over_own defaulting "t" .delete mixed).1⟩

/-- The entity that the record names is still there, and another one with its row key is gone. -/
theorem default_partition_moves_record :
    let t : EntityTable := ⟨[⟨"t", "D", "1", [], ""⟩, ⟨"t", "P", "1", [], ""⟩], 100, ⟨0, 0⟩⟩
    let records : List Record := [[(partitionKey, .string "P"), (rowKey, .string "1")]]
    defaulted.addresses "t" .delete records .none ≠ [.ok (some (.entity "P" "1"))] ∧
      (ran (defaulted.mutateRecords "t" .delete records .none) t).2.entities.map Entity.partition =
        ["P"] := by
  refine ⟨fun same => ?_, by decide +kernel⟩
  have keys : RecordKey.entity "D" "1" = .entity "P" "1" :=
    Option.some.inj (Except.ok.inj (List.cons.inj same).1)
  exact absurd keys (by decide)

end Gateway

end StoreGateway

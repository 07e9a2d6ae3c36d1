import StoreGateway.Proofs.AppliedItems
import StoreGateway.Proofs.Faultless
import StoreGateway.Proofs.OneByOne
import StoreGateway.Proofs.Rollback

/-!
Batches that the entity table takes as a whole, and the same batches sent to it item by item, with
what was done undone after a failure. Main statement: both ways end alike.
-/

namespace StoreGateway

open Running

variable {σ : Type}

namespace Executor

def compensating (e : Executor σ) : Executor σ :=
  { e with backend := { e.backend with atomicBatches := false } }

theorem sees_compensating (e : Executor σ) : e.compensating.Sees id e := by
  have same := Backend.Sees.refl e.backend
  exact ⟨{ same with kind := rfl }, rfl, rfl, rfl, rfl⟩

theorem compensating_fetch (e : Executor σ) (partition : String) (items : List Prepared) :
    e.compensating.fetch partition items = e.fetch partition items :=
  (sees_fetch (sees_compensating e) partition items).eq

theorem compensating_sendAll (e : Executor σ) (policy : Policy) (images : Option Images)
    (items : List (Nat × Except RequestError Prepared)) (run : Run) :
    e.compensating.sendAll policy images run items = e.sendAll policy images run items :=
  (sees_sendAll (sees_compensating e) policy images items run).eq

/-- How items reach the store when it is asked for no atomic batches. -/
def routeApart (e : Executor σ) (policy : Policy) (partition : String) (prepared : List Prepared) :
    Route :=
  if e.backend.kind == .table && policy.total > 1 && policy.verb == .get then
    .reads partition prepared
  else if e.backend.kind == .table && policy.total > 1 && policy.verb == .delete then
    .deletes partition prepared
  else .oneByOne

theorem route_of_shared (e : Executor σ) (policy : Policy)
    {items : List (Nat × Except RequestError Prepared)} {prepared : List Prepared}
    {partition : String} (all : allPrepared? items = some prepared)
    (shared : Prepared.sharedPartition? prepared = some partition) :
    e.route policy items = if policy.rollback && e.backend.atomicBatches &&
        policy.total ≤ e.maxBatch && prepared.all (·.verb.isWrite) then
      .atomic partition prepared else e.routeApart policy partition prepared := by
  unfold route
  simp only [all, shared]
  rfl

theorem route_compensating (e : Executor σ) (policy : Policy)
    {items : List (Nat × Except RequestError Prepared)} {prepared : List Prepared}
    {partition : String} (all : allPrepared? items = some prepared)
    (shared : Prepared.sharedPartition? prepared = some partition) :
    e.compensating.route policy items = e.routeApart policy partition prepared := by
  have never : ¬ (policy.rollback && e.compensating.backend.atomicBatches &&
      policy.total ≤ e.compensating.maxBatch && prepared.all (·.verb.isWrite)) = true := by
    simp [compensating]
  rw [route_of_shared e.compensating policy all shared, if_neg never]
  rfl

theorem compensating_conduct (e : Executor σ) {policy : Policy} {ops : List Operation}
    (other : ∀ partition prepared, e.route policy (e.items ops) ≠ .atomic partition prepared) :
    e.compensating.conduct policy ops = e.conduct policy ops := by
  have items : e.compensating.items ops = e.items ops := rfl
  have way : e.compensating.route policy (e.items ops) = e.route policy (e.items ops) := by
    cases all : allPrepared? (e.items ops) with
    | none =>
      unfold route
      simp only [all]
    | some prepared =>
      cases shared : Prepared.sharedPartition? prepared with
      | none =>
        unfold route
        simp only [all, shared]
      | some partition =>
        have apart := other partition prepared
        rw [route_of_shared e policy all shared] at apart
        rw [route_compensating e policy all shared, route_of_shared e policy all shared, if_neg]
        intro atomic
        exact apart (if_pos atomic)
  exact (sees_conduct (sees_compensating e) items way).eq

end Executor

namespace EntityTable

variable {t : EntityTable}

theorem Sound.keyed (sound : t.Sound) : t.Keyed :=
  ⟨sound.sorted, fun e member => (sound.properties e member).own⟩

theorem Sound.readable (sound : t.Sound) (table : String) : t.Readable table := by
  intro e member _
  obtain ⟨q, read, -⟩ := (sound.properties e member).reread
  exact ⟨e.record q, by rw [Entity.read, read]⟩

theorem ownKey_extend {partition row : String} (partitioned : partition ≠ "") (named : row ≠ "")
    (r : Record) : ownKey (r.extend (RecordKey.entity partition row).toRecord) =
      .ok (partition, row) := by
  have distinct : ((RecordKey.entity partition row).toRecord.map Prod.fst).Nodup := by
    change [partitionKey, rowKey].Nodup
    decide
  have first := Record.get?_extend_of_mem r (RecordKey.entity partition row).toRecord distinct
    (partitionKey, .string partition) List.mem_cons_self
  have second := Record.get?_extend_of_mem r (RecordKey.entity partition row).toRecord distinct
    (rowKey, .string row) (List.mem_cons_of_mem _ List.mem_cons_self)
  simp only at first second
  simp [ownKey, StoreKind.keyOf, first, Record.keyText?, second, Value.keyText?, Option.filter,
    partitioned, named]

/-- A batch within one partition that is not too long is made as a whole or given up as a whole. -/
theorem ran_submit_together (table : String) {writes : List Write}
    (few : writes.length ≤ t.maxBatch) (together : samePartition writes = true) :
    ran (submit table writes) t = ((ran (applyAll table 0 writes) t).1,
      if (ran (applyAll table 0 writes) t).1.isOk then (ran (applyAll table 0 writes) t).2 else t) := by
  rw [submit, ran_bind_ok (ran_get t), if_neg (Nat.not_lt.mpr few), together]
  change ran (tryCatch (applyAll table 0 writes) _) t = _
  rw [ran_tryCatch]
  rcases ran (applyAll table 0 writes) t with ⟨outcome, after⟩
  cases outcome <;> rfl

end EntityTable

namespace Executor

variable {e : Executor EntityTable} {t : EntityTable} {partition : String} {prepared : List Prepared}

theorem placed_of_prepared {op : Operation} {item : Prepared} {given : Option String} {row : String}
    (write : op.verb.isWrite = true) (prepared : op.prepare .table given = .ok item)
    (named : item.key = some (.entity partition row))
    (present : EntityTable.keeping.returns (.entity partition row)) : Placed item partition row := by
  obtain ⟨partitioned, rowed⟩ := present partition row rfl
  obtain ⟨key, -, rfl⟩ := prepare_cases prepared
  refine ⟨write, named, fun other => ?_⟩
  have is : key = some (.entity partition row) := named
  have needs : op.verb.needsRecord = true := by
    cases verb : op.verb <;> simp_all [Verb.isWrite, Verb.needsRecord]
  rw [is]
  simp only [completed, needs, if_true]
  exact EntityTable.ownKey_extend partitioned rowed _

theorem partitionOf_write {item : Prepared} {row : String} (placed : Placed item partition row) :
    EntityTable.partitionOf (e.write item) = some partition := by
  unfold write
  cases verb : item.verb with
  | delete =>
    rw [placed.key]
    rfl
  | replace =>
    have own := placed.own (by rw [verb]; decide)
    simp only
    split <;> simp only [EntityTable.partitionOf, own]
  | patch | create =>
    have own := placed.own (by rw [verb]; decide)
    simp only [EntityTable.partitionOf, own]
  | get =>
    have write := placed.write
    rw [verb] at write
    cases write

theorem samePartition_writes (placed : ∀ item ∈ prepared, ∃ row, Placed item partition row) :
    EntityTable.samePartition (prepared.map e.write) = true := by
  cases prepared with
  | nil => rfl
  | cons first rest =>
    have same (item : Prepared) (member : item ∈ first :: rest) :
        EntityTable.partitionOf (e.write item) = some partition := by
      obtain ⟨row, here⟩ := placed item member
      exact partitionOf_write here
    rw [List.map_cons, EntityTable.samePartition, List.all_eq_true]
    intro write member
    obtain ⟨item, inside, rfl⟩ := List.mem_map.mp member
    rw [same item (List.mem_cons_of_mem first inside), same first List.mem_cons_self]
    exact beq_self_eq_true _

theorem looked_fetch (sound : t.Sound) {found : Images} (verbs : ∀ item ∈ prepared, item.verb = .delete)
    (named : ∀ item ∈ prepared, ∃ row, item.key = some (.entity partition row))
    (known : ∀ item ∈ prepared, ∀ row, item.key = some (.entity partition row) →
      found.of? (.entity partition row) = t.shownAt e.table (.entity partition row)) :
    ∀ item ∈ prepared, e.Looked (some found) item t ∧
      Known EntityTable.keeping e.table (some found) item t := by
  intro item member
  obtain ⟨row, is⟩ := named item member
  have image := known item member row is
  have delete := verbs item member
  refine ⟨⟨⟨fun _ => delete, fun _ => Option.some_ne_none found⟩, ?_⟩, ?_⟩
  · intro found' same partition' row' key none
    cases same
    cases is.symm.trans key
    rw [image] at none
    exact EntityTable.find_none_of_shown (sound.readable e.table) none
  · intro found' same
    cases same
    refine ⟨delete, fun key keyed r there => ?_⟩
    cases is.symm.trans keyed
    rw [image] at there
    have got := congrArg Prod.fst (EntityTable.ran_get_present there)
    obtain ⟨q, present, shows⟩ := EntityTable.get_ok sound got
    exact ⟨q, shows, .inr present⟩

theorem contents_rollBack (backend : e.backend = EntityTable.backend) (sound : t.Sound)
    {images : Option Images} {items : List (Nat × Except RequestError Prepared)} {run : Run}
    {error : RequestError} {after : EntityTable} {state : BatchState}
    (sendable : ∀ i ∈ items, ∀ item, i.2 = .ok item → Sendable EntityTable.keeping item)
    (known : ∀ i ∈ items, ∀ item, i.2 = .ok item → Known EntityTable.keeping e.table images item t)
    (ended : ran (e.sendUntil images ⟨.empty, .empty⟩ items) ⟨t, state⟩ =
      (.ok (run, some error), ⟨after, state⟩)) (reached : BatchState) :
    (ran (e.rollBack run.log) ⟨after, reached⟩).2.store.contents = t.contents := by
  have faulty : e.faulty.backend = Faulty.backend EntityTable.backend := by
    rw [← backend]
    rfl
  obtain ⟨run', error', after', same, restores⟩ := restores_sendUntil (p := ⟨⟨t, []⟩, state⟩)
    EntityTable.keeps_records faulty ⟨.empty, .empty⟩ sendable known (Keeping.restores_start sound)
  have mirrored := mirrors_sendUntil e images items ⟨.empty, .empty⟩ ⟨t, state⟩
  rw [ended] at mirrored
  have both := same.symm.trans mirrored
  cases both
  have back := restores.restores after restores.sound rfl
  change ((UndoLog.compensate e.backend e.table run.log.entries).run after).2.contents = _
  rw [backend]
  exact back.2

/-- How a batch may end in two ways that are alike: with the same answer or error, in the same state,
and with the same entities. -/
structure Alike (first second : Except RequestError BatchResult × Progress EntityTable) : Prop where
  outcome : first.1 = second.1
  state : first.2.state = second.2.state
  contents : first.2.store.contents = second.2.store.contents

/-- A batch that the table takes as a whole ends as one of which the items are sent one after the
other, once the entities to delete are looked up. -/
theorem alike_deliver (backend : e.backend = EntityTable.backend) (sound : t.Sound)
    {policy : Policy} (rollback : policy.rollback = true) (stops : policy.continueOnError = false)
    {items : List (Nat × Except RequestError Prepared)}
    (whole : items = prepared.map fun item => (item.index, .ok item))
    (few : prepared.length ≤ t.maxBatch)
    (placed : ∀ item ∈ prepared, ∃ row, Placed item partition row) {images : Option Images}
    (looked : ∀ item ∈ prepared, e.Looked images item t)
    (sendable : ∀ i ∈ items, ∀ item, i.2 = .ok item → Sendable EntityTable.keeping item)
    (known : ∀ i ∈ items, ∀ item, i.2 = .ok item → Known EntityTable.keeping e.table images item t) :
    Alike (ran (e.deliver prepared (images.getD [])) ⟨t, .collecting⟩)
      (ran (do commit (← e.sendAll policy images ⟨.empty, .empty⟩ items)) ⟨t, .collecting⟩) := by
  subst whole
  have follows := follows_placed backend (fun item member => ⟨partition, placed item member⟩) looked 0
    ⟨.empty, .empty⟩ .collecting
  have few' : (prepared.map e.write).length ≤ t.maxBatch := by
    rwa [List.length_map]
  have submitted := EntityTable.ran_submit_together e.table few'
    (samePartition_writes placed)
  have made : ran (e.backend.submitBatch e.table (prepared.map e.write)) t =
      ran (EntityTable.submit e.table (prepared.map e.write)) t := by
    rw [backend]
    rfl
  rw [deliver, ran_bind_ok (ran_enter _ _), ran_bind_ok (ran_call _ _)]
  simp only [made, submitted]
  rw [ran_bind, ran_sendAll e rollback stops]
  rcases applied : ran (EntityTable.applyAll e.table 0 (prepared.map e.write)) t with
    ⟨outcome, after⟩
  cases outcome with
  | ok records =>
    obtain ⟨log, sent⟩ := follows.done applied
    rw [sent]
    exact ⟨rfl, rfl, rfl⟩
  | error fault =>
    obtain ⟨place, source, run, left, rfl, sent⟩ := follows.failed applied
    rw [sent]
    exact ⟨rfl, rfl, (contents_rollBack backend sound sendable known sent .rolledBack).symm⟩

theorem Made.writes {verb : Verb} {ops : List Operation} (made : Made verb ops)
    (write : verb.isWrite = true) : Writes verb ops := by
  refine ⟨write, made.several, ?_⟩
  rcases made.made with records | ⟨keys, record, same, -⟩
  · exact .inl records
  · exact .inr ⟨keys, record, same⟩

/-- What the items of a batch need to be made on their own as in an atomic batch. A key that the caller
gives has a row key: a single call takes an empty one, but a batch does not, and no record is inserted
again under it. What the items bring along can be kept and read back. -/
structure Returning (verb : Verb) (ops : List Operation) : Prop where
  returns : verb.isWrite = true → ∀ op ∈ ops, ∀ key, op.key = some key →
    EntityTable.keeping.returns key
  returnable : ∀ op ∈ ops, Returnable op

theorem routeApart_write (kind : e.backend.kind = .table) {policy : Policy}
    (several : 2 ≤ policy.total) (write : policy.verb.isWrite = true) :
    e.routeApart policy partition prepared =
      if policy.verb = .delete then .deletes partition prepared else .oneByOne := by
  have table : (e.backend.kind == StoreKind.table) = true := beq_iff_eq.mpr kind
  have get : (policy.verb == .get) = false := by
    cases verb : policy.verb <;> simp_all [Verb.isWrite]
  have many : decide (policy.total > 1) = true := decide_eq_true several
  rw [routeApart, table, many, get]
  by_cases delete : policy.verb = .delete
  · rw [if_pos delete, delete]
    rfl
  · have other : (policy.verb == .delete) = false := beq_eq_false_iff_ne.mpr delete
    rw [if_neg delete, other]
    rfl

theorem ran_conduct_both {policy : Policy} {ops : List Operation}
    (kind : e.backend.kind = .table) (several : 2 ≤ policy.total)
    (write : policy.verb.isWrite = true)
    (way : e.route policy (e.items ops) = .atomic partition prepared)
    (all : allPrepared? (e.items ops) = some prepared)
    (shared : Prepared.sharedPartition? prepared = some partition) {images : Option Images}
    {p : Progress EntityTable}
    (looked : policy.verb = .delete ∧ (∃ found, images = some found ∧
        ran (e.fetch partition prepared) p = (.ok found, p)) ∨
      policy.verb ≠ .delete ∧ images = none) :
    ran (e.conduct policy ops) p = ran (e.deliver prepared (images.getD [])) p ∧
      ran (e.compensating.conduct policy ops) p =
        ran (do commit (← e.sendAll policy images ⟨.empty, .empty⟩ (e.items ops))) p := by
  have items : e.compensating.items ops = e.items ops := rfl
  have apart := (route_compensating e policy all shared).trans (routeApart_write kind several write)
  rw [conduct, conduct, way, items, apart]
  change ran (e.submit policy partition prepared) p = _ ∧ _
  rw [submit_eq]
  rcases looked with ⟨delete, found, rfl, fetched⟩ | ⟨other, rfl⟩
  · rw [if_pos delete, if_pos delete, ran_bind_ok fetched]
    simp only [compensating_fetch, compensating_sendAll]
    rw [ran_bind_ok fetched]
    exact ⟨rfl, rfl⟩
  · rw [if_neg other, if_neg other]
    refine ⟨rfl, ?_⟩
    simp only [compensating_sendAll]

theorem placed_of_gathered (backend : e.backend = EntityTable.backend) {ops : List Operation}
    (gathered : e.Gathered ops partition prepared) (write : ∀ op ∈ ops, op.verb.isWrite = true)
    (returned : ∀ i ∈ e.items ops, ∀ item, i.2 = .ok item → ∀ key, item.key = some key →
      EntityTable.keeping.returns key) :
    ∀ item ∈ prepared, ∃ row, Placed item partition row := by
  intro item member
  obtain ⟨op, inside, same⟩ := gathered.source item member
  obtain ⟨row, named⟩ := gathered.named item member
  have present := returned (op.index, .ok item)
    (List.mem_map.mpr ⟨op, inside, congrArg (Prod.mk op.index) same⟩) item rfl _ named
  rw [backend] at same
  exact ⟨row, placed_of_prepared (write op inside) same named present⟩

theorem alike_atomic (backend : e.backend = EntityTable.backend) (sound : t.Sound)
    (limit : e.maxBatch ≤ t.maxBatch) {verb : Verb} {ops : List Operation} (made : Made verb ops)
    (returning : Returning verb ops) (write : verb.isWrite = true)
    (undone : (e.policy verb ops.length).rollback = true)
    (stopped : (e.policy verb ops.length).continueOnError = false)
    (way : e.route (e.policy verb ops.length) (e.items ops) = .atomic partition prepared)
    (all : allPrepared? (e.items ops) = some prepared)
    (shared : Prepared.sharedPartition? prepared = some partition)
    (fits : ops.length ≤ e.maxBatch) :
    Alike (ran (e.conduct (e.policy verb ops.length) ops) ⟨t, .collecting⟩)
      (ran (e.compensating.conduct (e.policy verb ops.length) ops) ⟨t, .collecting⟩) := by
  have kind : e.backend.kind = .table := by
    rw [backend]
    rfl
  have gathered := Gathered.of_shared all shared
  have verbs := gathered.verbs made.verbs
  have returned := returns_items (e := e.faulty) (by rw [← backend]; rfl) (returning.returns write)
  have placed := placed_of_gathered backend gathered
    (fun op inside => by rw [made.verbs op inside]; exact write) returned
  have few : prepared.length ≤ t.maxBatch := by
    have count := congrArg List.length gathered.whole
    rw [items, List.length_map, List.length_map] at count
    omega
  have sendable : ∀ i ∈ e.items ops, ∀ item, i.2 = .ok item → Sendable EntityTable.keeping item :=
    sendable_items (made.writes write) returning.returnable (fun r fits => fits) fun _ => returned
  -- one by one, deletions are looked up first; other changes look at each record for themselves
  by_cases delete : verb = .delete
  · have nonempty := gathered.nonempty (ne_nil_of_shared shared) made.present
    obtain ⟨found, fetched, known⟩ := ran_fetch_found (by rw [backend]; rfl) sound.keyed
      (sound.readable e.table) nonempty prepared .collecting
    have looked := looked_fetch sound (fun item member => (verbs item member).trans delete)
      gathered.named known
    have kept : ∀ i ∈ e.items ops, ∀ item, i.2 = .ok item →
        Known EntityTable.keeping e.table (some found) item t := by
      intro i member item same
      rw [gathered.whole] at member
      obtain ⟨other, inside, rfl⟩ := List.mem_map.mp member
      cases same
      exact (looked item inside).2
    obtain ⟨first, second⟩ := ran_conduct_both kind made.several write way all shared
      (.inl ⟨delete, found, rfl, fetched⟩)
    rw [first, second]
    exact alike_deliver backend sound undone stopped gathered.whole few placed
      (fun item member => (looked item member).1) sendable kept
  · have looked : ∀ item ∈ prepared, e.Looked none item t := fun item member =>
      ⟨⟨fun some => absurd rfl some, fun is => absurd ((verbs item member).symm.trans is) delete⟩,
        fun _ same => by cases same⟩
    obtain ⟨first, second⟩ := ran_conduct_both (p := ⟨t, .collecting⟩) kind made.several write way all
      shared (.inr ⟨delete, rfl⟩)
    rw [first, second]
    exact alike_deliver backend sound undone stopped gathered.whole few placed looked sendable
      fun _ _ _ _ _ same => by cases same

/-- A batch with rollback ends alike whether the entity table takes it as a whole or it is sent item
by item and undone after a failure, if the table is asked for no batch that is too long for it, keys
are not empty, and records can be kept and read back. -/
theorem atomic_batch_compensated (backend : e.backend = EntityTable.backend) (sound : t.Sound)
    (limit : e.maxBatch ≤ t.maxBatch) (rollback : e.options.rollback = true) {verb : Verb}
    {ops : List Operation} (made : Made verb ops) (returning : Returning verb ops) :
    Alike (ran (e.execute ops) ⟨t, .idle⟩) (ran (e.compensating.execute ops) ⟨t, .idle⟩) := by
  cases ops with
  | nil => cases made.several
  | cons first more =>
    obtain rfl := made.verbs first List.mem_cons_self
    let policy := e.policy first.verb (first :: more).length
    have undone : policy.rollback = true := by
      have several := made.several
      have total : ((first :: more).length != 1) = true := by
        simp only [bne_iff_ne]
        omega
      change (e.options.rollback && (first :: more).length != 1) = true
      rw [rollback, total]
      rfl
    by_cases stopped : policy.continueOnError = false
    · have allowed : ¬ (policy.rollback && policy.continueOnError) = true := by
        rw [stopped, Bool.and_false]
        exact Bool.false_ne_true
      rw [(execute_cons e first more).trans (if_neg allowed),
        (execute_cons e.compensating first more).trans (if_neg allowed),
        ran_bind_ok (ran_enter _ _), ran_bind_ok (ran_enter _ _)]
      -- the executors differ on the atomic route alone
      have alike_of_eq (other : ∀ partition prepared,
          e.route policy (e.items (first :: more)) ≠ .atomic partition prepared) :
          Alike (ran (e.conduct policy (first :: more)) ⟨t, .collecting⟩)
            (ran (e.compensating.conduct policy (first :: more)) ⟨t, .collecting⟩) := by
        rw [compensating_conduct e other]
        exact ⟨rfl, rfl, rfl⟩
      rcases route_cases e policy (e.items (first :: more)) with
        way | ⟨partition, prepared, all, shared, ⟨way, -, -, fits, writes⟩ | ⟨way, -⟩ | ⟨way, -⟩⟩
      · exact alike_of_eq fun _ _ atomic => by cases way.symm.trans atomic
      · have write : first.verb.isWrite = true := by
          obtain ⟨item, rest, rfl⟩ := List.exists_cons_of_ne_nil (ne_nil_of_shared shared)
          have is := (Gathered.of_shared all shared).verbs made.verbs item List.mem_cons_self
          rw [← is]
          exact List.all_eq_true.mp writes item List.mem_cons_self
        exact alike_atomic backend sound limit made returning write undone stopped way all shared
          fits
      · exact alike_of_eq fun _ _ atomic => by cases way.symm.trans atomic
      · exact alike_of_eq fun _ _ atomic => by cases way.symm.trans atomic
    · have conflict : (policy.rollback && policy.continueOnError) = true := by
        rw [undone, Bool.true_and]
        exact Bool.eq_true_of_not_eq_false stopped
      rw [(execute_cons e first more).trans (if_pos conflict),
        (execute_cons e.compensating first more).trans (if_pos conflict)]
      exact ⟨rfl, rfl, rfl⟩

def lone (row : String) : EntityTable := ⟨[⟨"t", "P", row, [("v", .int 1)], ""⟩], 100, ⟨0, 0⟩⟩

theorem lone_sound (row : String) : (lone row).Sound := by
  refine ⟨List.pairwise_singleton _ _, fun e member => ?_⟩
  rw [List.mem_singleton.mp member]
  exact stored_number (by decide +kernel) 1

def deletes (row : String) : List Operation :=
  Operation.ofKeys .delete [.entity "P" row, .entity "P" "x"] none

theorem made_deletes (row : String) : Made .delete (deletes row) :=
  ⟨by simp [deletes, Operation.ofKeys], .inr ⟨_, none, rfl, fun row => by simp⟩⟩

def reverting : Executor EntityTable := .new EntityTable.backend "t" ⟨true, false, .all, none⟩

/-- The second delete fails, and the entity is there again or still. -/
theorem atomic_batch_compensated_of_deletes :
    Alike (ran (reverting.execute (deletes "a")) ⟨lone "a", .idle⟩)
      (ran (reverting.compensating.execute (deletes "a")) ⟨lone "a", .idle⟩) := by
  refine atomic_batch_compensated rfl (lone_sound "a") (Nat.le_refl _) rfl (made_deletes "a")
    ⟨fun _ => returns_ofKeys fun key member => ?_, returnable_key⟩
  rcases List.mem_cons.mp member with rfl | member
  · exact returns_named (by decide)
  · rw [List.mem_singleton.mp member]
    exact returns_named (by decide)

/-- An entity with an empty row key is still there when the table gives its batch up, and is gone when
its delete was to be undone. -/
theorem empty_row_not_alike :
    (lone "").Sound ∧ reverting.maxBatch ≤ (lone "").maxBatch ∧ Made .delete (deletes "") ∧
    ¬ Alike (ran (reverting.execute (deletes "")) ⟨lone "", .idle⟩)
      (ran (reverting.compensating.execute (deletes "")) ⟨lone "", .idle⟩) := by
  refine ⟨lone_sound "", Nat.le_refl _, made_deletes "", fun alike => ?_⟩
  have kept : ((ran (reverting.execute (deletes "")) ⟨lone "", .idle⟩).2.store.contents "t"
      (.entity "P" "")).isSome = true := by
    decide +kernel
  have gone : ((ran (reverting.compensating.execute (deletes "")) ⟨lone "", .idle⟩).2.store.contents
      "t" (.entity "P" "")).isSome = false := by
    decide +kernel
  rw [alike.contents, gone] at kept
  cases kept

end Executor

end StoreGateway

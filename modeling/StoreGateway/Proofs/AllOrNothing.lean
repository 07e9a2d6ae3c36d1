import StoreGateway.Proofs.BatchRun

/-! Batches with rollback on a store of which the calls are known. -/

namespace StoreGateway

open Running

variable {σ : Type}

namespace Operation

variable {verb : Verb} {op : Operation}

theorem mem_ofRecords {records : List Record} (member : op ∈ ofRecords verb records) :
    op.verb = verb ∧ op.key = none := by
  obtain ⟨pair, -, rfl⟩ := List.mem_map.mp member
  exact ⟨rfl, rfl⟩

theorem mem_ofKeys {keys : List RecordKey} {record : Option Record}
    (member : op ∈ ofKeys verb keys record) :
    op.verb = verb ∧ op.record = record ∧ ∃ key ∈ keys, op.key = some key := by
  obtain ⟨pair, inside, rfl⟩ := List.mem_map.mp member
  exact ⟨rfl, rfl, pair.1, List.fst_mem_of_mem_zipIdx inside, rfl⟩

theorem indices_ofRecords (verb : Verb) (records : List Record) :
    (ofRecords verb records).map Operation.index =
      List.range' 0 (ofRecords verb records).length := by
  rw [ofRecords, List.map_map, List.length_map, List.length_zipIdx,
    ← List.zipIdx_map_snd 0 records]
  rfl

theorem indices_ofKeys (verb : Verb) (keys : List RecordKey) (record : Option Record) :
    (ofKeys verb keys record).map Operation.index =
      List.range' 0 (ofKeys verb keys record).length := by
  rw [ofKeys, List.map_map, List.length_map, List.length_zipIdx, ← List.zipIdx_map_snd 0 keys]
  rfl

end Operation

namespace Executor

def items (e : Executor σ) (ops : List Operation) : List (Nat × Except RequestError Prepared) :=
  ops.map fun op => (op.index, op.prepare e.backend.kind e.options.partition)

/-- A batch of writes up to its first failure, before anything is undone. -/
def forward (e : Executor σ) : List Operation → Running σ (Run × Option RequestError)
  | [] => throw (.badRequest .noRecords)
  | first :: more => do
    let ops := first :: more
    let policy := e.policy first.verb ops.length
    enter .collecting
    match e.route policy (e.items ops) with
    | .atomic partition prepared =>
      return (⟨← e.submit policy partition prepared, .empty⟩, none)
    | .deletes partition prepared => do
      let images ← e.fetch partition prepared
      e.sendUntil (some images) ⟨.empty, .empty⟩ (e.items ops)
    | _ => e.sendUntil none ⟨.empty, .empty⟩ (e.items ops)

/-- How a batch ends after what it did up to its first failure. -/
def concluded (e : Executor σ) :
    Except RequestError (Run × Option RequestError) × Progress σ →
      Except RequestError BatchResult × Progress σ
  | (.ok (run, none), after) => (.ok run.result, { after with state := .committed })
  | (.ok (run, some error), after) =>
    (.error error, (ran (e.rollBack run.log) { after with state := .rolledBack }).2)
  | (.error error, after) => (.error error, after)

/-- Operations of one verb that writes, made from records or from keys. -/
structure Writes (verb : Verb) (ops : List Operation) : Prop where
  write : verb.isWrite = true
  many : 2 ≤ ops.length
  made : (∃ records, ops = Operation.ofRecords verb records) ∨
    ∃ keys record, ops = Operation.ofKeys verb keys record

theorem Writes.verbs {verb : Verb} {ops : List Operation} (writes : Writes verb ops) :
    ∀ op ∈ ops, op.verb = verb := by
  intro op member
  rcases writes.made with ⟨records, rfl⟩ | ⟨keys, record, rfl⟩
  · exact (Operation.mem_ofRecords member).1
  · exact (Operation.mem_ofKeys member).1

theorem Writes.ordered {verb : Verb} {ops : List Operation} (writes : Writes verb ops) :
    (ops.map Operation.index).Pairwise (· < ·) := by
  have counted : ops.map Operation.index = List.range' 0 ops.length := by
    rcases writes.made with ⟨records, rfl⟩ | ⟨keys, record, rfl⟩
    · exact Operation.indices_ofRecords verb records
    · exact Operation.indices_ofKeys verb keys record
  rw [counted]
  exact List.pairwise_lt_range'

/-- What the route of a batch says of its items. -/
theorem route_cases (e : Executor σ) (policy : Policy)
    (items : List (Nat × Except RequestError Prepared)) :
    e.route policy items = .oneByOne ∨ ∃ partition prepared,
      allPrepared? items = some prepared ∧ Prepared.sharedPartition? prepared = some partition ∧
        (e.route policy items = .atomic partition prepared ∧ policy.rollback = true ∧
            e.backend.atomicBatches = true ∧ policy.total ≤ e.maxBatch ∧
            prepared.all (·.verb.isWrite) = true ∨
          e.route policy items = .reads partition prepared ∧ e.backend.kind = .table ∧
            policy.verb = .get ∨
          e.route policy items = .deletes partition prepared ∧ e.backend.kind = .table ∧
            policy.verb = .delete) := by
  unfold route
  split
  · exact .inl rfl
  · next prepared all =>
    split
    · exact .inl rfl
    · next partition shared =>
      split
      · next atomic =>
        simp only [Bool.and_eq_true, decide_eq_true_eq] at atomic
        obtain ⟨⟨⟨rollback, batches⟩, fits⟩, writes⟩ := atomic
        exact .inr ⟨partition, prepared, all, shared, .inl ⟨rfl, rollback, batches, fits, writes⟩⟩
      · split
        · next reads =>
          simp only [Bool.and_eq_true, beq_iff_eq] at reads
          exact .inr ⟨partition, prepared, all, shared, .inr (.inl ⟨rfl, reads.1.1, reads.2⟩)⟩
        · split
          · next deletes =>
            simp only [Bool.and_eq_true, beq_iff_eq] at deletes
            exact .inr ⟨partition, prepared, all, shared, .inr (.inr ⟨rfl, deletes.1.1, deletes.2⟩)⟩
          · exact .inl rfl

theorem route_ne_reads (e : Executor σ) {policy : Policy} (write : policy.verb.isWrite = true)
    (items : List (Nat × Except RequestError Prepared)) (partition : String)
    (prepared : List Prepared) : e.route policy items ≠ .reads partition prepared := by
  intro way
  rcases route_cases e policy items with
    other | ⟨_, _, -, -, ⟨other, -⟩ | ⟨-, -, get⟩ | ⟨other, -⟩⟩
  · cases way.symm.trans other
  · cases way.symm.trans other
  · rw [get] at write
    cases write
  · cases way.symm.trans other

theorem ran_queryAll_same (e : Executor σ)
    (same : ∀ table q s, (ran (e.backend.query table q) s).2 = s) (texts : List String)
    (images : Images) (p : Progress σ) : (ran (e.queryAll images texts) p).2 = p := by
  induction texts generalizing images with
  | nil => rfl
  | cons text rest ih =>
    rw [queryAll, ran_bind, ran_perform]
    have here := same e.table (.ofText text) p.store
    rcases found : ran (e.backend.query e.table (.ofText text)) p.store with ⟨outcome, after⟩
    rw [found] at here
    cases here
    cases outcome with
    | error fault => rfl
    | ok records => exact ih (addImages images records)

theorem ran_fetch_same (e : Executor σ)
    (same : ∀ table q s, (ran (e.backend.query table q) s).2 = s) (partition : String)
    (items : List Prepared) (p : Progress σ) : (ran (e.fetch partition items) p).2 = p :=
  ran_queryAll_same e same _ _ p

theorem ran_fetch_cases (e : Executor σ)
    (same : ∀ table q s, (ran (e.backend.query table q) s).2 = s) (partition : String)
    (items : List Prepared) (p : Progress σ) :
    (∃ error, ran (e.fetch partition items) p = (.error error, p)) ∨
      ∃ images, ran (e.fetch partition items) p = (.ok images, p) := by
  have still := ran_fetch_same e same partition items p
  rcases fetched : ran (e.fetch partition items) p with ⟨outcome, after⟩
  rw [fetched] at still
  cases still
  cases outcome with
  | error error => exact .inl ⟨error, rfl⟩
  | ok images => exact .inr ⟨images, rfl⟩

/-- What a batch as a whole answers with. -/
def answered (e : Executor σ) (snapshots : Images) (items : List Prepared)
    (records : List Record) : BatchResult :=
  (items.zip records).foldl
    (fun result (item, r) => result.record item.index (e.clean (shown snapshots item r)))
    BatchResult.empty

/-- Handing items to the store once the records to show are known. -/
def deliver (e : Executor σ) (items : List Prepared) (snapshots : Images) :
    Running σ BatchResult := do
  enter .committing
  match ← call (e.backend.submitBatch e.table (items.map e.write)) with
  | .ok records => commit ⟨e.answered snapshots items records, .empty⟩
  | .error (.batch _ source) =>
    enter .rolledBack
    throw (.ofStore source)
  | .error fault =>
    enter .failed
    throw (.ofStore fault)

theorem submit_eq (e : Executor σ) (policy : Policy) (partition : String) (items : List Prepared) :
    e.submit policy partition items =
      (if policy.verb = .delete then e.fetch partition items else pure []) >>= e.deliver items := by
  by_cases delete : policy.verb = .delete
  · simp only [submit, if_pos delete]
    rfl
  · simp only [submit, if_neg delete]
    rfl

theorem submit_cases (e : Executor σ)
    (same : ∀ table q s, (ran (e.backend.query table q) s).2 = s) {policy : Policy}
    {partition : String} {items : List Prepared} {p after : Progress σ}
    {outcome : Except RequestError BatchResult}
    (run : ran (e.submit policy partition items) p = (outcome, after)) :
    (∃ error, outcome = .error error ∧ after.store = p.store) ∨
      (∃ error fault, outcome = .error error ∧
        ran (e.backend.submitBatch e.table (items.map e.write)) p.store =
          (.error fault, after.store)) ∨
      ∃ snapshots records, outcome = .ok (e.answered snapshots items records) ∧
        ran (e.backend.submitBatch e.table (items.map e.write)) p.store =
          (.ok records, after.store) ∧ after.state = .committed := by
  let looked : Running σ Images :=
    if policy.verb = .delete then e.fetch partition items else pure []
  have still : (ran looked p).2 = p := by
    by_cases delete : policy.verb = .delete
    · simp only [looked, if_pos delete]
      exact ran_fetch_same e same partition items p
    · simp only [looked, if_neg delete]
      rfl
  rw [submit_eq] at run
  rcases found : ran looked p with ⟨snapshots, q⟩
  rw [found] at still
  have unmoved : p = q := still.symm
  subst unmoved
  cases snapshots with
  | error error =>
    rw [ran_bind_error found] at run
    cases run
    exact .inl ⟨error, rfl, rfl⟩
  | ok snapshots =>
    rw [ran_bind_ok found, deliver, ran_bind_ok (ran_enter _ p), ran_bind_ok (ran_call _ _)] at run
    rcases made : ran (e.backend.submitBatch e.table (items.map e.write)) p.store with ⟨result, s⟩
    simp only [made] at run
    cases result with
    | ok records =>
      cases run
      exact .inr (.inr ⟨snapshots, records, rfl, rfl, rfl⟩)
    | error fault =>
      refine .inr (.inl ?_)
      cases fault <;> cases run <;> exact ⟨_, _, rfl, rfl⟩

/-- A batch once its policy is settled. -/
def conduct (e : Executor σ) (policy : Policy) (ops : List Operation) : Running σ BatchResult :=
  match e.route policy (e.items ops) with
  | .atomic partition prepared => e.submit policy partition prepared
  | .reads partition prepared => do
    let found ← e.fetch partition prepared
    commit (← e.answerAll policy found ⟨.empty, .empty⟩ prepared)
  | .deletes partition prepared => do
    let images ← e.fetch partition prepared
    commit (← e.sendAll policy (some images) ⟨.empty, .empty⟩ (e.items ops))
  | .oneByOne => do commit (← e.sendAll policy none ⟨.empty, .empty⟩ (e.items ops))

theorem execute_cons (e : Executor σ) (first : Operation) (more : List Operation) :
    e.execute (first :: more) =
      let policy := e.policy first.verb (first :: more).length
      if policy.rollback && policy.continueOnError then throw .conflictingPolicies
      else enter .collecting >>= fun _ => e.conduct policy (first :: more) :=
  rfl

theorem policy_several (e : Executor σ) (verb : Verb) {total : Nat} (several : 2 ≤ total) :
    (e.policy verb total).rollback = e.options.rollback ∧
      (e.policy verb total).continueOnError = e.options.continueOnError := by
  have more : (total != 1) = true := by
    rw [bne_iff_ne]
    omega
  change (e.options.rollback && total != 1) = _ ∧ (e.options.continueOnError && total != 1) = _
  rw [more, Bool.and_true, Bool.and_true]
  exact ⟨rfl, rfl⟩

theorem ran_execute_cons (e : Executor σ) (first : Operation) (more : List Operation)
    (p : Progress σ) (apart : (e.policy first.verb (first :: more).length).rollback = false ∨
      (e.policy first.verb (first :: more).length).continueOnError = false) :
    ran (e.execute (first :: more)) p =
      ran (e.conduct (e.policy first.verb (first :: more).length) (first :: more))
        { p with state := .collecting } := by
  have allowed : ¬ ((e.policy first.verb (first :: more).length).rollback &&
      (e.policy first.verb (first :: more).length).continueOnError) = true := by
    rw [Bool.not_eq_true, Bool.and_eq_false_iff]
    exact apart
  rw [(execute_cons e first more).trans (if_neg allowed), ran_bind_ok (ran_enter _ p)]

theorem concluded_sendAll (e : Executor σ) {policy : Policy} (rollback : policy.rollback = true)
    (stops : policy.continueOnError = false) (images : Option Images)
    (items : List (Nat × Except RequestError Prepared)) (p : Progress σ) :
    ran (do commit (← e.sendAll policy images ⟨.empty, .empty⟩ items)) p =
      e.concluded (ran (e.sendUntil images ⟨.empty, .empty⟩ items) p) := by
  rw [ran_bind, ran_sendAll e rollback stops]
  rcases ran (e.sendUntil images ⟨.empty, .empty⟩ items) p with ⟨outcome, after⟩
  rcases outcome with error | ⟨run, _ | error⟩ <;> rfl

theorem concluded_submit (e : Executor σ)
    (same : ∀ table q s, (ran (e.backend.query table q) s).2 = s) (policy : Policy)
    (partition : String) (items : List Prepared) (p : Progress σ) :
    ran (e.submit policy partition items) p =
      e.concluded (ran (do return (⟨← e.submit policy partition items, .empty⟩, none)) p) := by
  rcases submitted : ran (e.submit policy partition items) p with ⟨outcome, q⟩
  rcases submit_cases e same submitted with
    ⟨error, rfl, -⟩ | ⟨error, fault, rfl, -⟩ | ⟨snapshots, records, rfl, -, state⟩
  · rw [ran_bind_error submitted]
    rfl
  · rw [ran_bind_error submitted]
    rfl
  · rw [ran_bind_ok submitted]
    rcases q with ⟨store, reached⟩
    cases state
    rfl

/-- A batch with rollback ends as it does up to its first failure; after a failure of an item, what
was done is undone. -/
theorem ran_execute (e : Executor σ)
    (same : ∀ table q s, (ran (e.backend.query table q) s).2 = s)
    (rollback : e.options.rollback = true) (stops : e.options.continueOnError = false)
    {verb : Verb} {ops : List Operation} (writes : Writes verb ops) (p : Progress σ) :
    ran (e.execute ops) p = e.concluded (ran (e.forward ops) p) := by
  cases ops with
  | nil => cases writes.many
  | cons first more =>
    have is := writes.verbs first List.mem_cons_self
    let policy := e.policy first.verb (first :: more).length
    obtain ⟨undone, stopped⟩ := policy_several e first.verb writes.many
    rw [rollback] at undone
    rw [stops] at stopped
    have write : policy.verb.isWrite = true := by
      change first.verb.isWrite = true
      rw [is]
      exact writes.write
    rw [ran_execute_cons e first more p (.inr stopped), forward]
    change _ = e.concluded (ran (enter .collecting >>= _) p)
    rw [ran_bind_ok (ran_enter _ p), conduct]
    let begun : Progress σ := { p with state := .collecting }
    cases way : e.route policy (e.items (first :: more)) with
    | reads partition prepared => exact absurd way (route_ne_reads e write _ partition prepared)
    | oneByOne => exact concluded_sendAll e undone stopped none _ begun
    | deletes partition prepared =>
      change ran (e.fetch partition prepared >>= _) begun =
        e.concluded (ran (e.fetch partition prepared >>= _) begun)
      rcases fetched : ran (e.fetch partition prepared) begun with ⟨outcome, q⟩
      cases outcome with
      | error error =>
        rw [ran_bind_error fetched, ran_bind_error fetched]
        rfl
      | ok images =>
        rw [ran_bind_ok fetched, ran_bind_ok fetched]
        exact concluded_sendAll e undone stopped (some images) _ q
    | atomic partition prepared => exact concluded_submit e same policy partition prepared begun

/-- How a batch may end: with all records as they were, or with one for each operation. -/
def Whole (k : Keeping σ) (ops : List Operation) (s : Faulty σ) :
    Except RequestError BatchResult × Progress (Faulty σ) → Prop
  | (.error _, after) => k.Unchanged s.store after.store.store
  | (.ok result, _) => result.failed = [] ∧ result.records.length = ops.length

/-- A batch that fails leaves all records as they were, and one that does not has one for each
operation. -/
structure AllOrNothing (e : Executor (Faulty σ)) (k : Keeping σ) (ops : List Operation)
    (s : Faulty σ) : Prop where
  nothing : ∀ {error after}, ran (e.execute ops) ⟨s, .idle⟩ = (.error error, after) →
    k.Unchanged s.store after.store.store
  all : ∀ {result after}, ran (e.execute ops) ⟨s, .idle⟩ = (.ok result, after) →
    result.failed = [] ∧ result.records.length = ops.length

theorem Whole.allOrNothing {e : Executor (Faulty σ)} {k : Keeping σ} {ops : List Operation}
    {s : Faulty σ} (whole : Whole k ops s (ran (e.execute ops) ⟨s, .idle⟩)) :
    e.AllOrNothing k ops s := by
  constructor
  · intro error after ended
    rw [ended] at whole
    exact whole
  · intro result after ended
    rw [ended] at whole
    exact whole

/-- Calls that undo something are not made to fail. -/
def SparesUndo (e : Executor (Faulty σ)) (ops : List Operation) (s : Faulty σ) : Prop :=
  ∀ run error after, ran (e.forward ops) ⟨s, .idle⟩ = (.ok (run, some error), after) →
    after.store.Spared

variable {b : Backend σ} {k : Keeping σ} {e : Executor (Faulty σ)} {ops : List Operation}
  {s : Faulty σ}

theorem rolledBack_unchanged (faulty : e.backend = Faulty.backend b) {log : UndoLog} {start : σ}
    {p : Progress (Faulty σ)} (spared : p.store.Spared)
    (restores : k.Restores b e.table log start p.store.store) :
    k.Unchanged start (ran (e.rollBack log) p).2.store.store := by
  have compensated := spared.compensate b e.table log.entries
  rw [← faulty] at compensated
  change k.Unchanged start ((UndoLog.compensate e.backend e.table log.entries).run p.store).2.store
  rw [compensated]
  exact restores.restores p.store.store restores.sound rfl

theorem whole_sendUntil (keeps : b.Keeps k) (faulty : e.backend = Faulty.backend b)
    {images : Option Images} {begun : Progress (Faulty σ)} (same : begun.store = s)
    (sound : k.sound s.store) (ordered : (ops.map Operation.index).Pairwise (· < ·))
    (sendable : ∀ i ∈ e.items ops, ∀ item, i.2 = .ok item → Sendable k item)
    (known : ∀ i ∈ e.items ops, ∀ item, i.2 = .ok item → Known k e.table images item s.store)
    (spares : ∀ run error after,
      ran (e.sendUntil images ⟨.empty, .empty⟩ (e.items ops)) begun = (.ok (run, some error), after) →
        after.store.Spared) :
    Whole k ops s (e.concluded (ran (e.sendUntil images ⟨.empty, .empty⟩ (e.items ops)) begun)) := by
  subst same
  obtain ⟨run, error, after, ended, restores⟩ := restores_sendUntil keeps faulty ⟨.empty, .empty⟩
    sendable known (Keeping.restores_start sound)
  rw [ended]
  cases error with
  | none =>
    have indices : (e.items ops).map Prod.fst = ops.map Operation.index := by
      rw [items, List.map_map]
      rfl
    rw [← indices] at ordered
    have before : ∀ i ∈ e.items ops, Before BatchResult.empty i.1 := by
      intro i _ o member
      cases member
    have recorded := records_sendUntil ordered before ended
    have count : (e.items ops).length = ops.length := List.length_map _
    refine ⟨recorded.1, ?_⟩
    rw [← count]
    exact recorded.2.trans (Nat.zero_add _)
  | some error =>
    exact rolledBack_unchanged (p := { after with state := .rolledBack }) faulty
      (spares run error after ended) restores

theorem allPrepared_cons {first : Nat × Except RequestError Prepared}
    {rest : List (Nat × Except RequestError Prepared)} {prepared : List Prepared}
    (all : allPrepared? (first :: rest) = some prepared) :
    ∃ item more, first.2 = .ok item ∧ allPrepared? rest = some more ∧ prepared = item :: more := by
  obtain ⟨index, here⟩ := first
  rw [allPrepared?, List.mapM_cons] at all
  obtain ⟨item, found, all⟩ := Option.bind_eq_some_iff.mp all
  obtain ⟨more, others, all⟩ := Option.bind_eq_some_iff.mp all
  cases all
  cases here with
  | error error => cases found
  | ok item' =>
    cases found
    exact ⟨item, more, rfl, others, rfl⟩

theorem outcomes_of_allPrepared {items : List (Nat × Except RequestError Prepared)}
    {prepared : List Prepared} (all : allPrepared? items = some prepared) :
    items.map Prod.snd = prepared.map .ok := by
  induction items generalizing prepared with
  | nil =>
    cases all
    rfl
  | cons first rest ih =>
    obtain ⟨item, more, here, others, rfl⟩ := allPrepared_cons all
    rw [List.map_cons, List.map_cons, here, ih others]

theorem items_of_allPrepared {items : List (Nat × Except RequestError Prepared)}
    {prepared : List Prepared} (all : allPrepared? items = some prepared)
    (same : ∀ i ∈ items, ∀ item, i.2 = .ok item → item.index = i.1) :
    items = prepared.map fun item => (item.index, .ok item) := by
  induction items generalizing prepared with
  | nil =>
    cases all
    rfl
  | cons first rest ih =>
    obtain ⟨item, more, here, others, rfl⟩ := allPrepared_cons all
    have index := same first List.mem_cons_self item here
    rw [List.map_cons, ← ih others fun i member => same i (List.mem_cons_of_mem _ member), index,
      ← here]

theorem allPrepared_indices {items : List (Nat × Except RequestError Prepared)}
    {prepared : List Prepared} (all : allPrepared? items = some prepared)
    (same : ∀ i ∈ items, ∀ item, i.2 = .ok item → item.index = i.1) :
    prepared.map Prepared.index = items.map Prod.fst := by
  rw [items_of_allPrepared all same, List.map_map]
  rfl

theorem route_atomic {σ : Type} {e : Executor σ} {policy : Policy}
    {items : List (Nat × Except RequestError Prepared)} {partition : String} {prepared : List Prepared}
    (way : e.route policy items = .atomic partition prepared) :
    allPrepared? items = some prepared := by
  rcases route_cases e policy items with
    other | ⟨_, _, all, -, ⟨same, -⟩ | ⟨other, -⟩ | ⟨other, -⟩⟩
  · cases way.symm.trans other
  · cases way.symm.trans same
    exact all
  · cases way.symm.trans other
  · cases way.symm.trans other

def completed (verb : Verb) (r : Record) : Option RecordKey → Record
  | some key => if verb.needsRecord then r.extend key.toRecord else r
  | none => r

theorem prepare_cases {kind : StoreKind} {partition : Option String} {op : Operation}
    {item : Prepared} (prepared : op.prepare kind partition = .ok item) :
    ∃ key, op.keyFor kind partition (Operation.normalised kind partition (op.record.getD [])) =
        .ok key ∧
      item = ⟨op.index, op.verb, key,
        completed op.verb (Operation.normalised kind partition (op.record.getD [])) key⟩ := by
  let r := Operation.normalised kind partition (op.record.getD [])
  change ite (op.verb.needsRecord = true ∧ r = []) _ _ = _ at prepared
  by_cases refused : op.verb.needsRecord = true ∧ r = []
  · rw [if_pos refused] at prepared
    cases prepared
  · rw [if_neg refused] at prepared
    change op.keyFor kind partition r >>= _ = _ at prepared
    cases keyed : op.keyFor kind partition r with
    | error fault =>
      rw [keyed] at prepared
      cases prepared
    | ok key =>
      rw [keyed] at prepared
      refine ⟨key, rfl, ?_⟩
      cases key <;> cases prepared <;> rfl

theorem unchanged_submit (keeps : b.Keeps k) (faulty : e.backend = Faulty.backend b)
    (sound : k.sound s.store) {batch : List Write} {fault : StoreFault} {after : Faulty σ}
    (made : ran (e.backend.submitBatch e.table batch) s = (.error fault, after)) :
    k.Unchanged s.store after.store := by
  rw [faulty] at made
  have ended : ran (Faulty.write (b.submitBatch e.table batch)) s = (.error fault, after) := made
  rcases Faulty.ran_write (b.submitBatch e.table batch) s with ⟨_, _, unmoved⟩ | ⟨outcome, store⟩
  · rw [ended] at unmoved
    rw [unmoved]
    exact ⟨sound, rfl⟩
  · rw [ended] at outcome store
    exact keeps.submit_error sound (Prod.ext outcome.symm store.symm)

theorem records_answered (keeps : b.Keeps k) (faulty : e.backend = Faulty.backend b) {verb : Verb}
    (writes : Writes verb ops) {policy : Policy} {partition : String} {prepared : List Prepared}
    (way : e.route policy (e.items ops) = .atomic partition prepared) {snapshots : Images}
    {records : List Record} {after : Faulty σ}
    (made : ran (e.backend.submitBatch e.table (prepared.map e.write)) s = (.ok records, after)) :
    (e.answered snapshots prepared records).failed = [] ∧
      (e.answered snapshots prepared records).records.length = ops.length := by
  have all := route_atomic way
  have indices : prepared.map Prepared.index = ops.map Operation.index := by
    rw [allPrepared_indices all, items, List.map_map]
    · rfl
    · intro i member item same
      obtain ⟨op, -, rfl⟩ := List.mem_map.mp member
      obtain ⟨key, -, rfl⟩ := prepare_cases same
      rfl
  have count : prepared.length = ops.length := by
    rw [← List.length_map Prepared.index, indices, List.length_map]
  have returned : records.length = prepared.length := by
    rw [faulty] at made
    have ended : ran (Faulty.write (b.submitBatch e.table (prepared.map e.write))) s =
        (.ok records, after) := made
    rcases Faulty.ran_write (b.submitBatch e.table (prepared.map e.write)) s with
      ⟨_, failed, _⟩ | ⟨outcome, store⟩
    · rw [ended] at failed
      cases failed
    · rw [ended] at outcome store
      rw [keeps.submit_ok (Prod.ext outcome.symm store.symm), List.length_map]
  have pairs : ((prepared.zip records).map fun pair => pair.1.index) =
      ops.map Operation.index :=
    calc (prepared.zip records).map (fun pair => pair.1.index)
      _ = ((prepared.zip records).map Prod.fst).map Prepared.index := by
        rw [List.map_map]
        rfl
      _ = prepared.map Prepared.index := by rw [List.map_fst_zip (by omega)]
      _ = ops.map Operation.index := indices
  have shown := records_shown e snapshots BatchResult.empty
    (pairs ▸ writes.ordered) (by
      intro pair _ o member
      cases member)
  refine ⟨shown.1, shown.2.trans ?_⟩
  rw [List.length_zip, returned, Nat.min_self, count]
  exact Nat.zero_add _

theorem whole_submit (keeps : b.Keeps k) (faulty : e.backend = Faulty.backend b)
    (same : ∀ table q s, (ran (e.backend.query table q) s).2 = s) {verb : Verb}
    (writes : Writes verb ops) (sound : k.sound s.store) {policy : Policy} {partition : String}
    {prepared : List Prepared} (way : e.route policy (e.items ops) = .atomic partition prepared) :
    Whole k ops s (e.concluded (ran (do
      return (⟨← e.submit policy partition prepared, .empty⟩, none)) ⟨s, .collecting⟩)) := by
  rcases submitted : ran (e.submit policy partition prepared) ⟨s, .collecting⟩ with ⟨outcome, after⟩
  rcases submit_cases e same submitted with
    ⟨error, rfl, unmoved⟩ | ⟨error, fault, rfl, made⟩ | ⟨snapshots, records, rfl, made, -⟩
  · rw [ran_bind_error submitted]
    change k.Unchanged s.store after.store.store
    rw [unmoved]
    exact ⟨sound, rfl⟩
  · rw [ran_bind_error submitted]
    exact unchanged_submit keeps faulty sound made
  · rw [ran_bind_ok submitted]
    exact records_answered keeps faulty writes way made

/-- A batch with rollback on a store of which the calls are known is all or nothing. -/
theorem allOrNothing (keeps : b.Keeps k) (faulty : e.backend = Faulty.backend b)
    (rollback : e.options.rollback = true) (stops : e.options.continueOnError = false)
    {verb : Verb} (writes : Writes verb ops) (sound : k.sound s.store)
    (sendable : ∀ i ∈ e.items ops, ∀ item, i.2 = .ok item → Sendable k item)
    (known : ∀ partition prepared,
      e.route (e.policy verb ops.length) (e.items ops) = .deletes partition prepared →
      ∀ images after, ran (e.fetch partition prepared) ⟨s, .collecting⟩ = (.ok images, after) →
      ∀ i ∈ e.items ops, ∀ item, i.2 = .ok item → Known k e.table (some images) item s.store)
    (spares : e.SparesUndo ops s) : e.AllOrNothing k ops s := by
  have same : ∀ table q s, (ran (e.backend.query table q) s).2 = s := by
    intro table q f
    rw [faulty]
    change { f with store := (ran (b.query table q) f.store).2 } = f
    rw [keeps.query_same]
  apply Whole.allOrNothing
  rw [ran_execute e same rollback stops writes]
  cases ops with
  | nil => cases writes.many
  | cons first more =>
    have is := writes.verbs first List.mem_cons_self
    have write : (e.policy verb (first :: more).length).verb.isWrite = true := writes.write
    have started : ran (e.forward (first :: more)) ⟨s, .idle⟩ =
        ran (match e.route (e.policy verb (first :: more).length) (e.items (first :: more)) with
          | .atomic partition prepared => do
            return (⟨← e.submit (e.policy verb (first :: more).length) partition prepared, .empty⟩,
              none)
          | .deletes partition prepared => do
            let images ← e.fetch partition prepared
            e.sendUntil (some images) ⟨.empty, .empty⟩ (e.items (first :: more))
          | _ => e.sendUntil none ⟨.empty, .empty⟩ (e.items (first :: more))) ⟨s, .collecting⟩ := by
      rw [← is]
      rfl
    unfold SparesUndo at spares
    rw [started] at spares ⊢
    cases way : e.route (e.policy verb (first :: more).length) (e.items (first :: more)) with
    | reads partition prepared => exact absurd way (route_ne_reads e write _ partition prepared)
    | oneByOne =>
      simp only [way] at spares ⊢
      exact whole_sendUntil keeps faulty rfl sound writes.ordered sendable
        (fun _ _ _ _ => nofun) spares
    | deletes partition prepared =>
      simp only [way] at spares ⊢
      -- nothing has been written yet when the looking up fails
      rcases ran_fetch_cases e same partition prepared ⟨s, .collecting⟩ with
        ⟨error, failed⟩ | ⟨images, fetched⟩
      · rw [ran_bind_error failed]
        exact ⟨sound, rfl⟩
      · rw [ran_bind_ok fetched] at spares ⊢
        exact whole_sendUntil keeps faulty rfl sound writes.ordered sendable
          (known partition prepared way images _ fetched) spares
    | atomic partition prepared =>
      simp only [way] at spares ⊢
      exact whole_submit keeps faulty same writes sound way

end Executor

end StoreGateway

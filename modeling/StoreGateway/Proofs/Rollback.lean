import StoreGateway.Proofs.DocumentUndo
import StoreGateway.Proofs.RowKeys

/-! Batches with rollback on the entity table and on the document store. -/

namespace StoreGateway

namespace Record

theorem Settled.extend {r more : Record} (settled : r.Settled) (settled' : more.Settled) :
    (r.extend more).Settled := by
  intro m member
  rcases mem_extend member with inside | inside
  · exact settled m inside
  · exact settled' m inside

theorem Settled.insert_string {r : Record} (settled : r.Settled) (name text : String) :
    (r.insert name (.string text)).Settled := by
  intro m member
  rcases mem_insert member with same | inside
  · exact settled_string same
  · exact settled m inside

theorem settled_key (key : RecordKey) : key.toRecord.Settled := by
  intro m member
  cases key with
  | entity partition row =>
    rcases List.mem_cons.mp member with same | member
    · exact settled_string same
    · exact settled_string (List.mem_singleton.mp member)
  | document id => exact settled_string (List.mem_singleton.mp member)

end Record

namespace Executor

/-- What an operation brings along can be kept and read back: it is nested no deeper than texts are
read, and its numbers change in one reading at most. -/
structure Returnable (op : Operation) : Prop where
  ordered : ∀ r, op.record = some r → r.Ordered
  settled : ∀ r, op.record = some r → r.Settled

theorem normalised_fits {op : Operation} (returnable : Returnable op) (kind : StoreKind)
    (partition : Option String) :
    let r := Operation.normalised kind partition (op.record.getD [])
    r.Ordered ∧ r.Settled := by
  have given : (op.record.getD []).Ordered ∧ (op.record.getD []).Settled := by
    cases is : op.record with
    | none => exact ⟨List.Pairwise.nil, nofun⟩
    | some r => exact ⟨returnable.ordered r is, returnable.settled r is⟩
  have erased : Record.Ordered ((op.record.getD []).erase timestamp) ∧
      Record.Settled ((op.record.getD []).erase timestamp) :=
    ⟨given.1.filter _, fun m member => given.2 m (List.mem_filter.mp member).1⟩
  cases kind with
  | document => exact given
  | table =>
    cases partition with
    | none => exact erased
    | some p =>
      by_cases empty : (op.record.getD []).erase timestamp = []
      · simp only [Operation.normalised, if_pos empty]
        exact erased
      · simp only [Operation.normalised, if_neg empty]
        exact ⟨erased.1.insert partitionKey (.string p), erased.2.insert_string partitionKey p⟩

theorem completed_fits {r : Record} (fits : r.Ordered ∧ r.Settled) (verb : Verb)
    (key : Option RecordKey) : (completed verb r key).Ordered ∧ (completed verb r key).Settled := by
  cases key with
  | none => exact fits
  | some key =>
    by_cases needs : verb.needsRecord = true
    · simp only [completed, if_pos needs]
      exact ⟨fits.1.extend key.toRecord, fits.2.extend (Record.settled_key key)⟩
    · simp only [completed, if_neg needs]
      exact fits

/-- A batch of writes that is to be undone when one of them fails, on a store of which the calls may
fail before they reach it. -/
structure RollsBack {σ : Type} (e : Executor (Faulty σ)) (b : Backend σ) (verb : Verb)
    (ops : List Operation) (s : Faulty σ) : Prop where
  faulty : e.backend = Faulty.backend b
  rollback : e.options.rollback = true
  stops : e.options.continueOnError = false
  writes : Writes verb ops
  returnable : ∀ op ∈ ops, Returnable op
  spares : e.SparesUndo ops s

/-- Items of a batch of writes can be sent if what the batch brings along fits the store. -/
theorem sendable_items {σ τ : Type} {e : Executor τ} {k : Keeping σ} {verb : Verb}
    {ops : List Operation} (writes : Writes verb ops) (returnable : ∀ op ∈ ops, Returnable op)
    (fits : ∀ r : Record, r.Ordered ∧ r.Settled → k.fits r)
    (returns : verb = .delete → ∀ i ∈ e.items ops, ∀ item, i.2 = .ok item → ∀ key,
      item.key = some key → k.returns key) :
    ∀ i ∈ e.items ops, ∀ item, i.2 = .ok item → Sendable k item := by
  intro i member item same
  have wanted := returns
  obtain ⟨op, inside, rfl⟩ := List.mem_map.mp member
  obtain ⟨key, -, made⟩ := prepare_cases same
  have verbs := writes.verbs op inside
  refine ⟨?_, ?_, fun delete key keyed => ?_⟩
  · rw [made, verbs]
    exact writes.write
  · rw [made]
    exact fits _ (completed_fits (normalised_fits (returnable op inside) _ _) op.verb key)
  · have is : verb = .delete := by
      rw [made, verbs] at delete
      exact delete
    exact wanted is _ member item same key keyed

theorem RollsBack.sendable {σ : Type} {e : Executor (Faulty σ)} {b : Backend σ} {k : Keeping σ}
    {verb : Verb} {ops : List Operation} {s : Faulty σ} (rolls : e.RollsBack b verb ops s)
    (fits : ∀ r : Record, r.Ordered ∧ r.Settled → k.fits r)
    (returns : verb = .delete → ∀ i ∈ e.items ops, ∀ item, i.2 = .ok item → ∀ key,
      item.key = some key → k.returns key) :
    ∀ i ∈ e.items ops, ∀ item, i.2 = .ok item → Sendable k item :=
  sendable_items rolls.writes rolls.returnable fits returns

/-- The keys that entities say themselves are not empty, so that the entities can be inserted again. -/
theorem returns_items {e : Executor (Faulty EntityTable)}
    (faulty : e.backend = Faulty.backend EntityTable.backend) {ops : List Operation}
    (returns : ∀ op ∈ ops, ∀ key, op.key = some key → EntityTable.keeping.returns key) :
    ∀ i ∈ e.items ops, ∀ item, i.2 = .ok item → ∀ key, item.key = some key →
      EntityTable.keeping.returns key := by
  intro i member item same key keyed partition row is
  obtain ⟨op, inside, rfl⟩ := List.mem_map.mp member
  obtain ⟨found, sought, made⟩ := prepare_cases same
  rw [made, is] at keyed
  have table : e.backend.kind = .table := by rw [faulty]; rfl
  rw [show found = some (.entity partition row) from keyed, table] at sought
  unfold Operation.keyFor at sought
  cases given : op.key with
  | some key' =>
    rw [given] at sought
    cases sought
    exact returns op inside _ given partition row rfl
  | none =>
    rw [given] at sought
    simp only at sought
    split at sought
    · next key' own =>
      cases sought
      exact EntityTable.keyOf_ok own
    · split at sought <;> cases sought

/-- The stores that keep their records themselves. -/
inductive LocalStore : {σ : Type} → Backend σ → Keeping σ → Prop
  | table : LocalStore EntityTable.backend EntityTable.keeping
  | document : LocalStore DocumentStore.backend DocumentStore.keeping

/-- A batch of writes with rollback is all or nothing, whichever of its calls fail, unless it deletes
records under keys that they can not be inserted with again. -/
theorem rollback_all_or_nothing {σ : Type} {b : Backend σ} {k : Keeping σ} (here : LocalStore b k)
    {e : Executor (Faulty σ)} {verb : Verb} {ops : List Operation} {s : Faulty σ}
    (rolls : e.RollsBack b verb ops s) (sound : k.sound s.store)
    (returns : verb = .delete → ∀ op ∈ ops, ∀ key, op.key = some key → k.returns key) :
    e.AllOrNothing k ops s := by
  cases here with
  | table =>
    have returned : verb = .delete → ∀ i ∈ e.items ops, ∀ item, i.2 = .ok item → ∀ key,
        item.key = some key → EntityTable.keeping.returns key := fun delete =>
      returns_items rolls.faulty (returns delete)
    refine allOrNothing EntityTable.keeps_records rolls.faulty rolls.rollback rolls.stops
      rolls.writes sound (rolls.sendable (fun r fits => fits) returned) ?_ rolls.spares
    intro partition prepared way images after fetched
    exact known_fetch sound rolls.faulty rolls.writes returned way fetched
  | document =>
    refine allOrNothing DocumentStore.keeps_records rolls.faulty rolls.rollback rolls.stops
      rolls.writes sound (rolls.sendable (fun r fits => fits) fun _ _ _ _ _ _ _ => trivial) ?_
      rolls.spares
    intro partition prepared way
    have kind := (route_deletes way).1
    rw [rolls.faulty] at kind
    cases kind

def undoing {σ : Type} (b : Backend σ) : Executor (Faulty σ) :=
  ⟨Faulty.backend b, "t", ⟨true, false, .all, none⟩, false, defaultMaxBatch, Entity.maxIds⟩

def twoEntities : Faulty EntityTable :=
  ⟨⟨[⟨"t", "P", "a", [("v", .int 1)], ""⟩, ⟨"t", "Q", "b", [("v", .int 2)], ""⟩], 100, ⟨0, 0⟩⟩,
    [none, some (.io "disk full")]⟩

def oneDocument : Faulty DocumentStore :=
  ⟨⟨[⟨"t", [⟨"a", "", [("v", .int 1)]⟩]⟩], ⟨0, 0⟩⟩, [none, some (.io "disk full")]⟩

def newDocuments : List Operation :=
  Operation.ofRecords .create [[("_id", .string "b")], [("_id", .string "c")]]

theorem spares_of_spent {σ : Type} {e : Executor (Faulty σ)} {ops : List Operation} {s : Faulty σ}
    (spent : (ran (e.forward ops) ⟨s, .idle⟩).2.store.plan = []) : e.SparesUndo ops s := by
  intro run error after ended fault member
  rw [ended] at spent
  have none_left : after.store.plan = [] := spent
  rw [none_left] at member
  cases member

theorem stored_number {own : String → Bool} {name : String} (is : own name = true) (i : Int) :
    Record.Stored own [(name, .int i)] := by
  refine ⟨List.pairwise_singleton _ _, fun m member => ?_, fun m member => ?_⟩
  · rw [List.mem_singleton.mp member]
    exact is
  · rw [List.mem_singleton.mp member]
    exact ⟨.int i, rfl, rfl⟩

theorem twoEntities_sound : twoEntities.store.Sound := by
  refine ⟨?_, fun e member => ?_⟩
  · refine List.pairwise_cons.mpr ⟨fun e member => ?_, List.pairwise_singleton _ _⟩
    rw [List.mem_singleton.mp member]
    decide +kernel
  · rcases List.mem_cons.mp member with rfl | member
    · exact stored_number (by decide +kernel) 1
    · rw [List.mem_singleton.mp member]
      exact stored_number (by decide +kernel) 2

theorem oneDocument_sound : oneDocument.store.Sound := by
  refine ⟨List.pairwise_singleton _ _, fun c member d inside => ?_⟩
  rw [List.mem_singleton.mp member] at inside ⊢
  rw [List.mem_singleton.mp inside]
  exact ⟨stored_number (by decide +kernel) 1, by decide +kernel, by decide +kernel,
    by decide +kernel, by decide +kernel⟩

theorem returnable_key {verb : Verb} {keys : List RecordKey} :
    ∀ op ∈ Operation.ofKeys verb keys none, Returnable op := by
  intro op member
  obtain ⟨-, bare, -⟩ := Operation.mem_ofKeys member
  have none : ∀ r, op.record ≠ some r := fun r same => by cases bare.symm.trans same
  exact ⟨fun r same => absurd same (none r), fun r same => absurd same (none r)⟩

theorem returns_ofKeys {verb : Verb} {keys : List RecordKey} {record : Option Record}
    (present : ∀ key ∈ keys, EntityTable.keeping.returns key) :
    ∀ op ∈ Operation.ofKeys verb keys record, ∀ key, op.key = some key →
      EntityTable.keeping.returns key := by
  intro op member key same
  obtain ⟨-, -, key', among, keyed⟩ := Operation.mem_ofKeys member
  cases keyed.symm.trans same
  exact present key among

theorem returns_named {partition row : String} (named : partition ≠ "" ∧ row ≠ "") :
    EntityTable.keeping.returns (.entity partition row) := by
  intro partition' row' same
  cases same
  exact named

theorem newDocuments_returnable : ∀ op ∈ newDocuments, Returnable op := by
  have key (id : String) : Record.Ordered [("_id", .string id)] ∧
      Record.Settled [("_id", .string id)] := by
    refine ⟨List.pairwise_singleton _ _, fun m member => ?_⟩
    exact Record.settled_string (List.mem_singleton.mp member)
  intro op member
  have is : ∃ id index, op = ⟨index, .create, none, some [("_id", .string id)]⟩ := by
    rcases List.mem_cons.mp member with rfl | member
    · exact ⟨"b", 0, rfl⟩
    · rw [List.mem_singleton.mp member]
      exact ⟨"c", 1, rfl⟩
  obtain ⟨id, index, rfl⟩ := is
  refine ⟨fun r same => ?_, fun r same => ?_⟩
  · cases same
    exact (key id).1
  · cases same
    exact (key id).2

/-- The deletion of the second entity fails, and the first is back; the insertion of the second
document fails, and the first is gone. -/
theorem rollback_all_or_nothing_of_fault :
    (undoing EntityTable.backend).RollsBack EntityTable.backend .delete
      (Operation.ofKeys .delete [.entity "P" "a", .entity "Q" "b"] none) twoEntities ∧
    (undoing EntityTable.backend).AllOrNothing EntityTable.keeping
      (Operation.ofKeys .delete [.entity "P" "a", .entity "Q" "b"] none) twoEntities ∧
    (undoing DocumentStore.backend).RollsBack DocumentStore.backend .create newDocuments
      oneDocument ∧
    (undoing DocumentStore.backend).AllOrNothing DocumentStore.keeping newDocuments oneDocument := by
  have table : (undoing EntityTable.backend).RollsBack EntityTable.backend .delete
      (Operation.ofKeys .delete [.entity "P" "a", .entity "Q" "b"] none) twoEntities :=
    ⟨rfl, rfl, rfl, ⟨rfl, by decide, .inr ⟨_, _, rfl⟩⟩, returnable_key,
      spares_of_spent (by decide +kernel)⟩
  have documents : (undoing DocumentStore.backend).RollsBack DocumentStore.backend .create
      newDocuments oneDocument :=
    ⟨rfl, rfl, rfl, ⟨rfl, by decide, .inl ⟨_, rfl⟩⟩, newDocuments_returnable,
      spares_of_spent (by decide +kernel)⟩
  refine ⟨table, ?_, documents, ?_⟩
  · refine rollback_all_or_nothing .table table twoEntities_sound ?_
    intro _
    refine returns_ofKeys fun key member => ?_
    rcases List.mem_cons.mp member with rfl | member
    · exact returns_named (by decide)
    · rw [List.mem_singleton.mp member]
      exact returns_named (by decide)
  · have returns : Verb.create = .delete → ∀ op ∈ newDocuments, ∀ key, op.key = some key →
        DocumentStore.keeping.returns key := fun _ _ _ _ _ => trivial
    exact rollback_all_or_nothing .document documents oneDocument_sound returns

/-- An entity with an empty row key. -/
def emptyRow : Faulty EntityTable :=
  ⟨⟨[⟨"t", "P", "", [("v", .int 1)], ""⟩], 100, ⟨0, 0⟩⟩, []⟩

/-- An entity with an empty row key is deleted, and not back after the next deletion has failed: its
record says no key that it could be inserted with. -/
theorem rollback_loses_empty_row :
    (undoing EntityTable.backend).RollsBack EntityTable.backend .delete
      (Operation.ofKeys .delete [.entity "P" "", .entity "Q" "x"] none) emptyRow ∧
    emptyRow.store.Sound ∧
    ¬ (undoing EntityTable.backend).AllOrNothing EntityTable.keeping
      (Operation.ofKeys .delete [.entity "P" "", .entity "Q" "x"] none) emptyRow := by
  refine ⟨⟨rfl, rfl, rfl, ⟨rfl, by decide, .inr ⟨_, _, rfl⟩⟩, returnable_key,
    spares_of_spent (by decide +kernel)⟩, ?_, fun kept => ?_⟩
  · refine ⟨List.pairwise_singleton _ _, fun e member => ?_⟩
    rw [List.mem_singleton.mp member]
    exact stored_number (by decide +kernel) 1
  · have failed : (ran ((undoing EntityTable.backend).execute
        (Operation.ofKeys .delete [.entity "P" "", .entity "Q" "x"] none))
        ⟨emptyRow, .idle⟩).1.toBool = false := by decide +kernel
    have gone : ((ran ((undoing EntityTable.backend).execute
        (Operation.ofKeys .delete [.entity "P" "", .entity "Q" "x"] none))
        ⟨emptyRow, .idle⟩).2.store.store.contents "t" (.entity "P" "")).isSome = false := by
      decide +kernel
    have there : (emptyRow.store.contents "t" (.entity "P" "")).isSome = true := by decide +kernel
    rcases ended : ran ((undoing EntityTable.backend).execute
      (Operation.ofKeys .delete [.entity "P" "", .entity "Q" "x"] none)) ⟨emptyRow, .idle⟩
      with ⟨outcome, after⟩
    rw [ended] at failed gone
    cases outcome with
    | ok result => cases failed
    | error error =>
      have same : after.store.store.contents = emptyRow.store.contents := (kept.nothing ended).2
      rw [same, there] at gone
      cases gone

end Executor

end StoreGateway

import StoreGateway.Proofs.AtomicBatches

/-!
Batches of the entity table, and their operations as calls one after the other. Main statement: a batch
within one partition ends as its operations do in sequence, whenever the entities were written, and a
batch that is refused or fails changes nothing.
-/

namespace StoreGateway

variable {σ : Type}

/-- The call of an operation at the key that its record names. -/
def Record.atOwnKey (kind : StoreKind) (r : Record) (call : RecordKey → Call σ Record) :
    Call σ Record :=
  match kind.keyOf r none with
  | .ok key => call key
  | .error fault => throw (.rejected fault.message)

/-- An operation as a call of its own. A deletion answers with the key that it deletes. -/
def Write.call (b : Backend σ) (table : String) : Write → Call σ Record
  | .insert r => b.insert table r
  | .replace r => r.atOwnKey b.kind fun key => b.replace table key r
  | .upsert r => r.atOwnKey b.kind fun key => b.upsert table key r
  | .merge r => r.atOwnKey b.kind fun key => b.merge table key r
  | .delete key => do
    b.delete table key
    return key.toRecord

/-- Makes the calls of operations up to the first that fails, which is told by its place. -/
def Backend.inSequence (b : Backend σ) (table : String) (place : Nat) :
    List Write → ExceptT (Nat × StoreFault) (StateM σ) (List Record)
  | [] => pure []
  | w :: rest => do
    let r ← (w.call b table).adapt fun fault => (place, fault)
    return r :: (← b.inSequence table (place + 1) rest)

def Record.untimed (r : Record) : Record :=
  r.map fun m => if m.1 = timestamp then (m.1, .null) else m

def Entity.untimed (e : Entity) : Entity := { e with timestamp := "" }

/-- Both tables have the same entities, whenever these were written. -/
def EntityTable.SameContent (t u : EntityTable) : Prop :=
  t.entities.map Entity.untimed = u.entities.map Entity.untimed

namespace Record

theorem untimed_cons (name : String) (v : Value) (r : Record) :
    untimed ((name, v) :: r) = (name, if name = timestamp then .null else v) :: r.untimed := by
  by_cases timed : name = timestamp <;> simp [untimed, timed]

theorem untimed_insert (r : Record) (name : String) (v : Value) :
    (r.insert name v).untimed = r.untimed.insert name (if name = timestamp then .null else v) := by
  induction r with
  | nil => exact untimed_cons name v []
  | cons m r ih =>
    obtain ⟨other, w⟩ := m
    rw [insert, untimed_cons, insert]
    by_cases same : name = other
    · rw [if_pos same, if_pos same, untimed_cons]
    · rw [if_neg same, if_neg same]
      by_cases before : name < other
      · rw [if_pos before, if_pos before, untimed_cons, untimed_cons]
      · rw [if_neg before, if_neg before, untimed_cons, ih]

theorem untimed_extend {base base' : Record} (same : base.untimed = base'.untimed) (q : Record) :
    (base.extend q).untimed = (base'.extend q).untimed := by
  induction q generalizing base base' with
  | nil => exact same
  | cons m q ih =>
    refine ih ?_
    change (base.insert m.1 m.2).untimed = (base'.insert m.1 m.2).untimed
    rw [untimed_insert, untimed_insert, same]

end Record

namespace Entity

theorem propertiesOf_untimed (r : Record) : propertiesOf r.untimed = propertiesOf r := by
  induction r with
  | nil => rfl
  | cons m r ih =>
    obtain ⟨name, v⟩ := m
    rw [Record.untimed_cons]
    unfold propertiesOf at ih ⊢
    rw [List.filter_cons, List.filter_cons, ih]
    by_cases timed : name = StoreGateway.timestamp
    · have no : isProperty name = false := by
        rw [timed]
        rfl
      simp only [no]
      rfl
    · rw [if_neg timed]

theorem untimed_stamps (table partition row : String) (properties : Record)
    (stamp stamp' : String) : untimed ⟨table, partition, row, properties, stamp⟩ =
      untimed ⟨table, partition, row, properties, stamp'⟩ := rfl

variable {e f : Entity}

theorem keys_of_untimed (same : e.untimed = f.untimed) : e.table = f.table ∧
    e.partition = f.partition ∧ e.row = f.row ∧ e.properties = f.properties := by
  obtain ⟨table, partition, row, properties, stamp⟩ := e
  obtain ⟨table', partition', row', properties', stamp'⟩ := f
  simpa [untimed] using same

theorem untimed_record (same : e.untimed = f.untimed) (q : Record) :
    (e.record q).untimed = (f.record q).untimed := by
  obtain ⟨-, partition, row, -⟩ := keys_of_untimed same
  refine Record.untimed_extend ?_ q
  rw [partition, row]
  rfl

theorem propertiesOf_record_untimed (same : e.untimed = f.untimed) (q : Record) :
    propertiesOf (e.record q) = propertiesOf (f.record q) := by
  rw [← propertiesOf_untimed (e.record q), untimed_record same q, propertiesOf_untimed]

end Entity

namespace EntityTable

variable {t u : EntityTable} {table partition row : String}

theorem map_untimed_place (e : Entity) (es : List Entity) :
    (place e es).map Entity.untimed = place e.untimed (es.map Entity.untimed) := by
  induction es with
  | nil => rfl
  | cons f rest ih =>
    have keyed : f.untimed.hasKey e.untimed.table e.untimed.partition e.untimed.row =
        f.hasKey e.table e.partition e.row := rfl
    have ordered : e.untimed.precedes f.untimed = e.precedes f := rfl
    rw [List.map_cons, place, place, keyed, ordered]
    by_cases here : f.hasKey e.table e.partition e.row = true
    · rw [if_pos here, if_pos here, List.map_cons]
    · rw [if_neg here, if_neg here]
      by_cases before : e.precedes f = true
      · rw [if_pos before, if_pos before, List.map_cons, List.map_cons]
      · rw [if_neg before, if_neg before, List.map_cons, ih]

theorem SameContent.place (same : t.SameContent u) {e f : Entity} (entity : e.untimed = f.untimed)
    (supply supply' : Supply) :
    SameContent { t with entities := EntityTable.place e t.entities, supply := supply }
      { u with entities := EntityTable.place f u.entities, supply := supply' } := by
  unfold SameContent at same ⊢
  rw [map_untimed_place, map_untimed_place, same, entity]

theorem SameContent.remove (same : t.SameContent u) (table partition row : String) :
    SameContent { t with entities := t.entities.filter fun e => !e.hasKey table partition row }
      { u with entities := u.entities.filter fun e => !e.hasKey table partition row } := by
  have filtered (es : List Entity) : (es.filter fun e => !e.hasKey table partition row).map
      Entity.untimed = (es.map Entity.untimed).filter fun e => !e.hasKey table partition row := by
    rw [List.filter_map]
    rfl
  unfold SameContent at same ⊢
  rw [filtered, filtered, same]

theorem SameContent.find? (same : t.SameContent u) (table partition row : String) :
    (t.find? table partition row).map Entity.untimed =
      (u.find? table partition row).map Entity.untimed := by
  have found (es : List Entity) : (es.find? fun e => e.hasKey table partition row).map
      Entity.untimed = (es.map Entity.untimed).find? fun e => e.hasKey table partition row := by
    rw [List.find?_map]
    rfl
  unfold EntityTable.find?
  rw [found, found, same]

/-- Ends of calls that differ in times only. -/
structure SameEnd {ε : Type} (first second : Except ε Record × EntityTable) : Prop where
  outcome : first.1.map Record.untimed = second.1.map Record.untimed
  content : first.2.SameContent second.2

theorem SameContent.refused {ε : Type} (same : t.SameContent u) (fault : ε) :
    SameEnd (.error fault, t) (.error fault, u) :=
  ⟨rfl, same⟩

theorem SameContent.load (same : t.SameContent u) (mode : WriteMode) (table partition row : String)
    (r : Record) :
    ((ran (EntityTable.load table partition row) t).1 >>= fun existing =>
        written mode partition row existing r) =
      (ran (EntityTable.load table partition row) u).1 >>= fun existing =>
        written mode partition row existing r := by
  have found := same.find? table partition row
  rw [EntityTable.load, ran_bind_ok (ran_get t), ran_bind_ok (ran_get u)]
  cases first : t.find? table partition row with
  | none =>
    rw [first] at found
    cases second : u.find? table partition row with
    | none => rfl
    | some f =>
      rw [second] at found
      cases found
  | some e =>
    rw [first] at found
    cases second : u.find? table partition row with
    | none =>
      rw [second] at found
      cases found
    | some f =>
      rw [second] at found
      have entity : e.untimed = f.untimed := Option.some.inj found
      obtain ⟨-, -, -, properties⟩ := Entity.keys_of_untimed entity
      change ((ran (liftM e.read >>= _) t).1 >>= _) = (ran (liftM f.read >>= _) u).1 >>= _
      rw [ran_bind, ran_lift, ran_bind, ran_lift, Entity.read, Entity.read, properties]
      cases Json.rereadRecord f.properties with
      | error fault => rfl
      | ok q =>
        change written mode partition row (some (e.record q)) r =
          written mode partition row (some (f.record q)) r
        cases mode with
        | merge => rw [written, written, Entity.propertiesOf_record_untimed entity q]
        | insert => rfl
        | replace => rfl
        | upsert => rfl

theorem sameEnd_write (same : t.SameContent u) (mode : WriteMode) (table partition row : String)
    (r : Record) :
    SameEnd (ran (write mode table partition row r) t) (ran (write mode table partition row r) u) := by
  rw [ran_write_eq, ran_write_eq, same.load mode table partition row r]
  cases (ran (load table partition row) u).1 >>= fun existing =>
      written mode partition row existing r with
  | error fault => exact same.refused fault
  | ok properties =>
    have entity := Entity.untimed_stamps table partition row properties t.supply.stamp.1
      u.supply.stamp.1
    exact ⟨congrArg Except.ok (Entity.untimed_record entity properties), same.place entity _ _⟩

theorem sameEnd_delete (same : t.SameContent u) (table : String) (key : RecordKey) :
    SameEnd (ran (apply table (.delete key)) t) (ran (apply table (.delete key)) u) := by
  cases key with
  | document id => exact same.refused _
  | entity partition row =>
    have found := congrArg Option.isNone (same.find? table partition row)
    rw [Option.isNone_map, Option.isNone_map] at found
    change SameEnd (ran (EntityTable.remove table partition row >>= _) t)
      (ran (EntityTable.remove table partition row >>= _) u)
    rw [ran_bind, ran_bind, ran_remove_eq, ran_remove_eq, found]
    cases (u.find? table partition row).isNone with
    | true => exact same.refused _
    | false => exact ⟨rfl, same.remove table partition row⟩

theorem sameEnd_apply (same : t.SameContent u) (table : String) (w : Write) :
    SameEnd (ran (apply table w) t) (ran (apply table w) u) := by
  have own (mode : WriteMode) (r : Record) :
      SameEnd (ran (writeOwn mode table r) t) (ran (writeOwn mode table r) u) := by
    rw [ran_writeOwn, ran_writeOwn]
    cases ownKey r with
    | error fault => exact same.refused fault
    | ok parts => exact sameEnd_write same mode table parts.1 parts.2 r
  cases w with
  | insert r => exact own .insert r
  | replace r => exact own .replace r
  | upsert r => exact own .upsert r
  | merge r => exact own .merge r
  | delete key => exact sameEnd_delete same table key

theorem ran_writeAtOwnKey (mode : WriteMode) (table : String) (r : Record) (t : EntityTable) :
    ran (r.atOwnKey .table fun key => writeAt mode table key r) t =
      ran (writeOwn mode table r) t := by
  rw [ran_writeOwn]
  unfold ownKey Record.atOwnKey
  cases StoreKind.table.keyOf r none with
  | error fault => rfl
  | ok key =>
    cases key with
    | entity partition row => rfl
    | document id => rfl

theorem ran_call_own (table : String) (w : Write) (t : EntityTable) :
    ran (w.call backend table) t = ran (apply table w) t := by
  cases w with
  | insert r => rfl
  | replace r => exact ran_writeAtOwnKey .replace table r t
  | upsert r => exact ran_writeAtOwnKey .upsert table r t
  | merge r => exact ran_writeAtOwnKey .merge table r t
  | delete key =>
    cases key with
    | entity partition row => rfl
    | document id => rfl

/-- How the operations of a batch end that is made in a transaction, and how they end as calls one
after the other: with the same records and entities, or at the same operation with the same fault. -/
inductive SameCourse : Except StoreFault (List Record) × EntityTable →
    Except (Nat × StoreFault) (List Record) × EntityTable → Prop
  | made {records records' : List Record} {t u : EntityTable}
      (shown : records.map Record.untimed = records'.map Record.untimed) (content : t.SameContent u) :
      SameCourse (.ok records, t) (.ok records', u)
  | failed (place : Nat) (fault : StoreFault) (t u : EntityTable) :
      SameCourse (.error (.batch place fault), t) (.error (place, fault), u)

theorem sameCourse_applyAll (same : t.SameContent u) (table : String) (place : Nat)
    (writes : List Write) :
    SameCourse (ran (applyAll table place writes) t)
      (ran (backend.inSequence table place writes) u) := by
  -- the induction is on the operations; each is made on what the ones before it left
  induction writes generalizing t u place with
  | nil => exact .made rfl same
  | cons w rest ih =>
    have first := sameEnd_apply same table w
    rw [← ran_call_own table w u] at first
    rw [applyAll, Backend.inSequence, ran_bind, ran_tryCatch, ran_bind, ran_adapt]
    obtain ⟨told, content⟩ := first
    generalize ran (apply table w) t = left at told content ⊢
    generalize ran (w.call backend table) u = right at told content ⊢
    obtain ⟨outcome, t'⟩ := left
    obtain ⟨outcome', u'⟩ := right
    cases outcome with
    | error fault =>
      cases outcome' with
      | ok r => cases told
      | error fault' =>
        cases told
        exact .failed place fault t' u'
    | ok r =>
      cases outcome' with
      | error fault' => cases told
      | ok r' =>
        have shown : r.untimed = r'.untimed := Except.ok.inj told
        have others := ih content (place + 1)
        change SameCourse (ran (applyAll table (place + 1) rest >>= _) t')
          (ran (backend.inSequence table (place + 1) rest >>= _) u')
        rw [ran_bind, ran_bind]
        generalize ran (applyAll table (place + 1) rest) t' = left at others ⊢
        generalize ran (backend.inSequence table (place + 1) rest) u' = right at others ⊢
        cases others with
        | failed place' fault t'' u'' => exact .failed place' fault t'' u''
        | made more content' =>
          refine .made ?_ content'
          rw [List.map_cons, List.map_cons, shown, more]

theorem samePartition_iff {writes : List Write} : samePartition writes = true ↔
    ∀ v ∈ writes, ∀ w ∈ writes, partitionOf v = partitionOf w := by
  cases writes with
  | nil => simp [samePartition]
  | cons first rest =>
    rw [samePartition, List.all_eq_true]
    constructor
    · intro all
      have with_first : ∀ v ∈ first :: rest, partitionOf v = partitionOf first := by
        intro v member
        rcases List.mem_cons.mp member with rfl | member
        · rfl
        · exact eq_of_beq (all v member)
      intro v inside w inside'
      exact (with_first v inside).trans (with_first w inside').symm
    · intro all v member
      exact beq_iff_eq.mpr (all v (List.mem_cons_of_mem first member) first List.mem_cons_self)

/-- What a batch makes of operations that a sequence of calls would make one by one. -/
structure InSequence (t u : EntityTable) (table : String) (writes : List Write) : Prop where
  made : ∀ records after, ran (backend.inSequence table 0 writes) u = (.ok records, after) →
    ∃ records' after', ran (backend.submitBatch table writes) t = (.ok records', after') ∧
      records'.map Record.untimed = records.map Record.untimed ∧ after'.SameContent after
  failed : ∀ place fault after,
    ran (backend.inSequence table 0 writes) u = (.error (place, fault), after) →
      ran (backend.submitBatch table writes) t = (.error (.batch place fault), t)

/-- A batch that is not refused ends as its operations do in sequence, on tables with the same
entities; whatever its fault, it leaves the table as it was. -/
theorem batch_in_sequence (same : t.SameContent u) (table : String) (writes : List Write) :
    (writes.length ≤ t.maxBatch → (∀ v ∈ writes, ∀ w ∈ writes, partitionOf v = partitionOf w) →
      InSequence t u table writes) ∧
      ∀ fault after, ran (backend.submitBatch table writes) t = (.error fault, after) → after = t := by
  refine ⟨fun few together => ?_, fun fault after run => submit_error run⟩
  have submitted := ran_submit_together table few (samePartition_iff.mpr together)
  have course := sameCourse_applyAll same table 0 writes
  refine ⟨fun records after run => ?_, fun place fault after run => ?_⟩
  · rw [run] at course
    generalize applied : ran (applyAll table 0 writes) t = ended at course
    cases course with
    | made shown content =>
      rw [applied] at submitted
      exact ⟨_, _, submitted, shown, content⟩
  · rw [run] at course
    generalize applied : ran (applyAll table 0 writes) t = ended at course
    cases course with
    | failed =>
      rw [applied] at submitted
      exact submitted

def writtenAt (stamp : String) : EntityTable := ⟨[⟨"t", "P", "a", [], stamp⟩], 100, ⟨0, 0⟩⟩

/-- The record that is inserted is deleted again, so that nothing is there to merge into. -/
def repeats : List Write :=
  let r : Record := [(partitionKey, .string "P"), (rowKey, .string "b")]
  [.insert r, .delete (.entity "P" "b"), .merge r]

theorem batch_in_sequence_of_repeats :
    (writtenAt "before").SameContent (writtenAt "after") ∧
      ran (backend.submitBatch "t" repeats) (writtenAt "before") =
        (.error (.batch 2 (missing "P" "b")), writtenAt "before") := by
  have same : (writtenAt "before").SameContent (writtenAt "after") := rfl
  have together : samePartition repeats = true := by decide +kernel
  have missed : (ran (backend.inSequence "t" 0 repeats) (writtenAt "after")).1 =
      .error (2, missing "P" "b") := by
    rfl
  exact ⟨same, ((batch_in_sequence same "t" repeats).1 (by decide)
    (samePartition_iff.mp together)).failed 2 (missing "P" "b") _ (Prod.ext missed rfl)⟩

end EntityTable

end StoreGateway

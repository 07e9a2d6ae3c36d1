import StoreGateway.Proofs.LookedUpItems

/-!
The items of a batch as the entity table applies them, and as they are sent to it one after the other.
Main statement: both go equally far, answer with the same records and leave the same entities.
-/

namespace StoreGateway

open Running

namespace EntityTable

variable {t : EntityTable} {table partition row : String} {r : Record}

theorem ran_writeOwn_keyed (own : ownKey r = .ok (partition, row)) (mode : WriteMode) :
    ran (writeOwn mode table r) t = ran (writeAt mode table (.entity partition row) r) t := by
  rw [ran_writeOwn, own]
  rfl

theorem ran_write_unread {fault : StoreFault} {t' : EntityTable}
    (failed : ran (load table partition row) t = (.error fault, t')) (mode : WriteMode) :
    ran (write mode table partition row r) t = (.error fault, t') := by
  rw [write, ran_bind_error failed]

/-- A look-up fails only where what is kept can not be read. -/
theorem load_fault {fault : StoreFault} {t' : EntityTable}
    (failed : ran (load table partition row) t = (.error fault, t')) :
    ∃ message, fault = .json message := by
  rw [load, ran_bind_ok (ran_get t)] at failed
  cases found : t.find? table partition row with
  | none =>
    rw [found] at failed
    cases failed
  | some e =>
    rw [found] at failed
    change ran (liftM e.read >>= _) t = _ at failed
    rw [ran_bind, ran_lift] at failed
    cases once : Json.rereadRecord e.properties with
    | ok properties =>
      rw [Entity.read, once] at failed
      cases failed
    | error fault =>
      rw [Entity.read, once] at failed
      cases failed
      exact ⟨_, rfl⟩

theorem find?_remove {t' : EntityTable} (absent : t.find? table partition row = none)
    {table' partition' row' : String} {outcome : Except StoreFault Unit}
    (run : ran (remove table' partition' row') t = (outcome, t')) :
    t'.find? table partition row = none := by
  rw [remove, ran_bind_ok (ran_get t)] at run
  by_cases there : (t.find? table' partition' row').isNone = true
  · rw [if_pos there, ran_bind_error (ran_throw _ t)] at run
    cases run
    exact absent
  · rw [if_neg there] at run
    cases run
    refine List.find?_eq_none.mpr fun e member => ?_
    exact List.find?_eq_none.mp absent e (List.mem_filter.mp member).1

end EntityTable

namespace Executor

variable {e : Executor EntityTable} {item : Prepared} {partition row : String} {t : EntityTable}

/-- A write of the entity with a key, which its record names too. -/
structure Placed (item : Prepared) (partition row : String) : Prop where
  write : item.verb.isWrite = true
  key : item.key = some (.entity partition row)
  own : item.verb ≠ .delete → EntityTable.ownKey item.record = .ok (partition, row)

/-- Entities to delete were looked up, and those that were not found are not there. -/
structure Looked (e : Executor EntityTable) (images : Option Images) (item : Prepared)
    (t : EntityTable) : Prop where
  deletes : images ≠ none ↔ item.verb = .delete
  absent : ∀ found, images = some found → ∀ partition row, item.key = some (.entity partition row) →
    found.of? (.entity partition row) = none → t.find? e.table partition row = none

/-- How an item ends on its own that the table applies with this outcome. -/
inductive Ends (images : Option Images) (item : Prepared) :
    Except StoreFault Record → Except RequestError (Record × Option UndoEntry) → Prop where
  | done (r : Record) (undo : Option UndoEntry) :
    Ends images item (.ok r) (.ok (shown (images.getD []) item r, undo))
  | failed (fault : StoreFault) : Ends images item (.error fault) (.error (.ofStore fault))

theorem shown_other (snapshots : Images) (other : item.verb ≠ .delete) (r : Record) :
    shown snapshots item r = r := by
  unfold shown
  cases verb : item.verb with
  | delete => exact absurd verb other
  | _ => rfl

theorem shown_delete (snapshots : Images) (delete : item.verb = .delete) {key : RecordKey}
    (named : item.key = some key) (r : Record) :
    shown snapshots item r = (snapshots.of? key).getD key.toRecord := by
  unfold shown
  rw [delete, named]

theorem ran_prior_entity (backend : e.backend = EntityTable.backend) (verb : Verb)
    (partition row : String) (p : Progress EntityTable) :
    (∃ prior, ran (e.prior true none verb (.entity partition row)) p = (.ok prior, p)) ∨
      ∃ fault, ran (EntityTable.load e.table partition row) p.store = (.error fault, p.store) ∧
        ran (e.prior true none verb (.entity partition row)) p = (.error (.ofStore fault), p) := by
  have still := EntityTable.ran_load_same (t := p.store) e.table partition row
  rw [e.ran_prior_wanted (Bool.true_or _), backend, EntityTable.ran_get_entity]
  rcases loaded : ran (EntityTable.load e.table partition row) p.store with ⟨outcome, after⟩
  rw [loaded] at still
  cases still
  rcases outcome with fault | _ | r
  · obtain ⟨message, rfl⟩ := EntityTable.load_fault loaded
    exact .inr ⟨_, rfl, rfl⟩
  · exact .inl ⟨none, rfl⟩
  · exact .inl ⟨some r, rfl⟩

theorem ran_change_placed (backend : e.backend = EntityTable.backend) (placed : Placed item partition row)
    (is : item.verb = .replace ∨ item.verb = .patch) (prior : Option Record)
    (p : Progress EntityTable) :
    ran (e.change item (.entity partition row) prior) p =
      ran (perform (EntityTable.apply e.table (e.write item))) p := by
  have keyed (mode : EntityTable.WriteMode) (other : item.verb ≠ .delete) :
      ran (perform (EntityTable.writeAt mode e.table (.entity partition row) item.record)) p =
        ran (perform (EntityTable.writeOwn mode e.table item.record)) p := by
    rw [ran_perform, ran_perform, EntityTable.ran_writeOwn_keyed (placed.own other)]
  have other : item.verb ≠ .delete := by
    rcases is with verb | verb <;> rw [verb] <;> decide
  rcases is with verb | verb
  · by_cases upserts : e.upsertAllowed = true
    · rw [e.change_upsert verb upserts, e.write_upsert verb upserts, backend]
      exact keyed .upsert other
    · rw [e.change_replace verb upserts, e.write_replace verb upserts, backend]
      exact keyed .replace other
  · rw [e.change_patch verb, e.write_patch verb, backend]
    exact keyed .merge other

/-- An item that is sent ends as it does when the table applies it. -/
def Sent (e : Executor EntityTable) (images : Option Images) (item : Prepared) (t : EntityTable)
    (state : BatchState) : Prop :=
  let applied := ran (EntityTable.apply e.table (e.write item)) t
  let sent := ran (e.send true images item) ⟨t, state⟩
  Ends images item applied.1 sent.1 ∧ sent.2 = ⟨applied.2, state⟩

theorem sent_create (backend : e.backend = EntityTable.backend) (create : item.verb = .create)
    (images : Option Images) (state : BatchState) : e.Sent images item t state := by
  have other : item.verb ≠ .delete := by
    rw [create]
    decide
  unfold Sent
  rw [e.send_create true images create, e.write_create create]
  simp only
  rw [ran_bind, ran_perform, backend]
  change Ends images item (ran (EntityTable.writeOwn .insert e.table item.record) t).1 _ ∧ _
  rcases run : ran (EntityTable.writeOwn .insert e.table item.record) t with ⟨outcome, after⟩
  have inserted : ran (EntityTable.backend.insert e.table item.record) t = (outcome, after) := run
  have applied : ran (EntityTable.apply e.table (.insert item.record)) t = (outcome, after) := run
  rw [inserted, applied]
  cases outcome with
  | error fault => exact ⟨.failed fault, rfl⟩
  | ok r =>
    have done := @Ends.done images item r
    rw [shown_other _ other] at done
    simp only
    cases EntityTable.backend.kind.keyOf r none <;> exact ⟨done _, rfl⟩

theorem ran_apply_placed (placed : Placed item partition row)
    (is : item.verb = .replace ∨ item.verb = .patch) : ∃ mode,
      ran (EntityTable.apply e.table (e.write item)) t =
        ran (EntityTable.write mode e.table partition row item.record) t := by
  have keyed (mode : EntityTable.WriteMode) (other : item.verb ≠ .delete) :
      ran (EntityTable.writeOwn mode e.table item.record) t =
        ran (EntityTable.write mode e.table partition row item.record) t := by
    rw [EntityTable.ran_writeOwn, placed.own other]
  have other : item.verb ≠ .delete := by
    rcases is with verb | verb <;> rw [verb] <;> decide
  rcases is with verb | verb
  · by_cases upserts : e.upsertAllowed = true
    · rw [e.write_upsert verb upserts]
      exact ⟨.upsert, keyed .upsert other⟩
    · rw [e.write_replace verb upserts]
      exact ⟨.replace, keyed .replace other⟩
  · rw [e.write_patch verb]
    exact ⟨.merge, keyed .merge other⟩

theorem sent_change (backend : e.backend = EntityTable.backend) (placed : Placed item partition row)
    (is : item.verb = .replace ∨ item.verb = .patch) (state : BatchState) :
    e.Sent none item t state := by
  have other : item.verb ≠ .delete := by
    rcases is with verb | verb <;> rw [verb] <;> decide
  have three : item.verb = .replace ∨ item.verb = .patch ∨ item.verb = .delete :=
    is.elim .inl fun patch => .inr (.inl patch)
  unfold Sent
  rw [send_keyed e true none placed.key three]
  rcases ran_prior_entity backend item.verb partition row ⟨t, state⟩ with
    ⟨prior, before⟩ | ⟨fault, failed, before⟩
  · rw [ran_bind_ok before, ran_bind, ran_change_placed backend placed is, ran_perform]
    rcases ran (EntityTable.apply e.table (e.write item)) t with ⟨outcome, after⟩
    cases outcome with
    | error fault => exact ⟨.failed fault, rfl⟩
    | ok r =>
      have done := @Ends.done none item r
      rw [shown_other _ other] at done
      exact ⟨done _, rfl⟩
  · obtain ⟨mode, applied⟩ := ran_apply_placed (e := e) (t := t) placed is
    rw [ran_bind_error before, applied, EntityTable.ran_write_unread failed]
    exact ⟨.failed fault, rfl⟩

theorem ran_apply_delete (placed : Placed item partition row) (delete : item.verb = .delete) :
    ran (EntityTable.apply e.table (e.write item)) t =
      ran (EntityTable.remove e.table partition row >>= fun _ =>
        pure (RecordKey.entity partition row).toRecord) t := by
  rw [e.write_delete delete placed.key]
  rfl

theorem sent_delete (backend : e.backend = EntityTable.backend) (placed : Placed item partition row)
    (delete : item.verb = .delete) {found : Images} (looked : e.Looked (some found) item t)
    (state : BatchState) : e.Sent (some found) item t state := by
  unfold Sent
  rw [send_keyed e true (some found) placed.key (.inr (.inr delete)), ran_apply_delete placed delete]
  -- what was found for the key decides both: with nothing found both report it missing
  cases image : found.of? (.entity partition row) with
  | none =>
    have absent := looked.absent found rfl partition row placed.key image
    have before : ran (e.prior true (some found) item.verb (.entity partition row)) ⟨t, state⟩ =
        (.error (missing (.entity partition row)), ⟨t, state⟩) := by
      rw [e.prior_unknown true image]
      rfl
    have removed : ran (EntityTable.remove e.table partition row) t =
        (.error (EntityTable.missing partition row), t) := by
      rw [EntityTable.remove, ran_bind_ok (ran_get t), absent]
      rfl
    rw [ran_bind_error before, ran_bind_error removed]
    exact ⟨.failed (EntityTable.missing partition row), rfl⟩
  | some r =>
    have before : ran (e.prior true (some found) item.verb (.entity partition row)) ⟨t, state⟩ =
        (.ok (some r), ⟨t, state⟩) := by
      rw [e.prior_known true image]
      rfl
    have changed : ran (e.change item (.entity partition row) (some r)) ⟨t, state⟩ =
        ran (perform (EntityTable.remove e.table partition row) >>= fun _ => pure r) ⟨t, state⟩ := by
      rw [e.change_delete delete, backend]
      rfl
    rw [ran_bind_ok before]
    rcases removed : ran (EntityTable.remove e.table partition row) t with ⟨outcome, after⟩
    cases outcome with
    | error fault =>
      have performed : ran (perform (EntityTable.remove e.table partition row)) ⟨t, state⟩ =
          (.error (.ofStore fault), ⟨after, state⟩) := by
        rw [ran_perform, removed]
      rw [ran_bind_error performed] at changed
      rw [ran_bind_error removed, ran_bind_error changed]
      exact ⟨.failed fault, rfl⟩
    | ok done =>
      have performed : ran (perform (EntityTable.remove e.table partition row)) ⟨t, state⟩ =
          (.ok done, ⟨after, state⟩) := by
        rw [ran_perform, removed]
      have shows := @Ends.done (some found) item
        (RecordKey.entity partition row).toRecord
      rw [shown_delete _ delete placed.key, Option.getD_some, image] at shows
      rw [ran_bind_ok performed] at changed
      rw [ran_bind_ok removed, ran_bind_ok changed]
      exact ⟨shows _, rfl⟩

theorem sent_placed (backend : e.backend = EntityTable.backend)
    (placed : Placed item partition row) {images : Option Images} (looked : e.Looked images item t)
    (state : BatchState) : e.Sent images item t state := by
  cases images with
  | some found => exact sent_delete backend placed (looked.deletes.mp (Option.some_ne_none found)) looked state
  | none =>
    have other : item.verb ≠ .delete := fun delete => looked.deletes.mpr delete rfl
    have write := placed.write
    cases verb : item.verb with
    | create => exact sent_create backend verb none state
    | replace => exact sent_change backend placed (.inl verb) state
    | patch => exact sent_change backend placed (.inr verb) state
    | delete => exact absurd verb other
    | get =>
      rw [verb] at write
      cases write

theorem Looked.later {images : Option Images} {other : Prepared} (looked : e.Looked images other t)
    (placed : Placed item partition row) (here : e.Looked images item t) :
    e.Looked images other (ran (EntityTable.apply e.table (e.write item)) t).2 := by
  refine ⟨looked.deletes, fun found same p r named image => ?_⟩
  have absent := looked.absent found same p r named image
  have delete : item.verb = .delete := here.deletes.mp (by rw [same]; exact Option.some_ne_none found)
  rw [ran_apply_delete placed delete]
  let Absent (t : EntityTable) : Prop := t.find? e.table p r = none
  have removed : Absent (ran (EntityTable.remove e.table partition row) t).2 :=
    EntityTable.find?_remove absent rfl
  exact ran_bind_keeps (P := Absent) removed fun _ _ kept => kept

/-- A result with the records of more items. -/
def answering (e : Executor EntityTable) (snapshots : Images) (result : BatchResult)
    (pairs : List (Prepared × Record)) : BatchResult :=
  pairs.foldl
    (fun result pair => result.record pair.1.index (e.clean (shown snapshots pair.1 pair.2))) result

/-- Items that are sent until one fails, and items that the table applies. -/
structure Follows (e : Executor EntityTable) (images : Option Images) (items : List Prepared)
    (index : Nat) (run : Run) (t : EntityTable) (state : BatchState) : Prop where
  done : ∀ {records t'},
    ran (EntityTable.applyAll e.table index (items.map e.write)) t = (.ok records, t') →
      ∃ log, ran (e.sendUntil images run (items.map fun item => (item.index, .ok item))) ⟨t, state⟩ =
        (.ok (⟨e.answering (images.getD []) run.result (items.zip records), log⟩, none), ⟨t', state⟩)
  failed : ∀ {fault t'},
    ran (EntityTable.applyAll e.table index (items.map e.write)) t = (.error fault, t') →
      ∃ place source run' after, fault = .batch place source ∧
        ran (e.sendUntil images run (items.map fun item => (item.index, .ok item))) ⟨t, state⟩ =
          (.ok (run', some (.ofStore source)), ⟨after, state⟩)

section First

variable {images : Option Images} {rest : List Prepared} {index : Nat} {run : Run}
  {state : BatchState} {after : EntityTable}

theorem ran_answer_sent {outcome : Except RequestError (Record × Option UndoEntry)}
    (sent : ran (e.send true images item) ⟨t, state⟩ = (outcome, ⟨after, state⟩)) :
    ran (e.answer images (.ok item)) ⟨t, state⟩ = (.ok outcome, ⟨after, state⟩) := by
  rw [answer, ran_attempt, sent]

theorem Follows.first_failed {fault : StoreFault}
    (applied : ran (EntityTable.apply e.table (e.write item)) t = (.error fault, after))
    (sent : ran (e.send true images item) ⟨t, state⟩ = (.error (.ofStore fault), ⟨after, state⟩)) :
    e.Follows images (item :: rest) index run t state := by
  have stops : ran (EntityTable.applyAll e.table index ((item :: rest).map e.write)) t =
      (.error (.batch index fault), after) := by
    refine ran_bind_error ?_
    rw [ran_tryCatch, applied]
    rfl
  refine ⟨fun {records t'} ends => ?_, fun {fault' t'} ends => ?_⟩
  · rw [stops] at ends
    cases ends
  · rw [stops] at ends
    cases ends
    exact ⟨index, fault, _, after, rfl, ran_bind_ok (ran_answer_sent sent)⟩

theorem Follows.first_done {r : Record} {undo : Option UndoEntry}
    (applied : ran (EntityTable.apply e.table (e.write item)) t = (.ok r, after))
    (sent : ran (e.send true images item) ⟨t, state⟩ =
      (.ok (shown (images.getD []) item r, undo), ⟨after, state⟩))
    (later : e.Follows images rest (index + 1)
      (e.taken run item.index (shown (images.getD []) item r) undo) after state) :
    e.Follows images (item :: rest) index run t state := by
  have goes : ran (EntityTable.applyAll e.table index ((item :: rest).map e.write)) t =
      ran (EntityTable.applyAll e.table (index + 1) (rest.map e.write) >>= fun more =>
        pure (r :: more)) after := by
    refine ran_bind_ok ?_
    rw [ran_tryCatch, applied]
  have answered := ran_answer_sent sent
  rcases more : ran (EntityTable.applyAll e.table (index + 1) (rest.map e.write)) after with
    ⟨outcome, last⟩
  refine ⟨fun {records t'} ends => ?_, fun {fault t'} ends => ?_⟩
  · cases outcome with
    | error fault =>
      rw [goes, ran_bind_error more] at ends
      cases ends
    | ok others =>
      rw [goes, ran_bind_ok more] at ends
      cases ends
      obtain ⟨log, finished⟩ := later.done more
      exact ⟨log, (ran_bind_ok answered).trans finished⟩
  · cases outcome with
    | ok others =>
      rw [goes, ran_bind_ok more] at ends
      cases ends
    | error fault =>
      rw [goes, ran_bind_error more] at ends
      cases ends
      obtain ⟨place, source, run', left, same, finished⟩ := later.failed more
      exact ⟨place, source, run', left, same, (ran_bind_ok answered).trans finished⟩

end First

/-- Items come equally far when they are sent one after the other as when the table applies them. -/
theorem follows_placed (backend : e.backend = EntityTable.backend) {images : Option Images}
    {items : List Prepared} (placed : ∀ item ∈ items, ∃ partition row, Placed item partition row)
    (looked : ∀ item ∈ items, e.Looked images item t) (index : Nat) (run : Run) (state : BatchState) :
    e.Follows images items index run t state := by
  -- the induction is on the items; those that are not there to be deleted are not there later
  -- either
  induction items generalizing t index run with
  | nil =>
    refine ⟨fun {records t'} applied => ?_, fun {fault t'} applied => ?_⟩
    · cases applied
      exact ⟨run.log, rfl⟩
    · cases applied
  | cons item rest ih =>
    obtain ⟨partition, row, here⟩ := placed item List.mem_cons_self
    have found := looked item List.mem_cons_self
    have others : ∀ other ∈ rest, e.Looked images other
        (ran (EntityTable.apply e.table (e.write item)) t).2 := fun other member =>
      (looked other (List.mem_cons_of_mem item member)).later here found
    have later (run : Run) := ih (fun other member => placed other (List.mem_cons_of_mem item member))
      others (index + 1) run
    obtain ⟨ended, left⟩ := sent_placed backend here found state
    rcases sent : ran (e.send true images item) ⟨t, state⟩ with ⟨outcome, reached⟩
    rcases applied : ran (EntityTable.apply e.table (e.write item)) t with ⟨result, after⟩
    rw [sent, applied] at ended left
    rw [applied] at later
    cases left
    cases ended with
    | failed fault => exact .first_failed applied sent
    | done r undo => exact .first_done applied sent (later _)

end Executor

end StoreGateway

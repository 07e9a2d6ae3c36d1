import StoreGateway.Proofs.BatchUndo

/-! A batch with rollback as a run up to its first failure, and what is undone then. -/

namespace StoreGateway

open Running

variable {σ : Type}

namespace Executor

/-- How an item ends that is to be undone with the others. -/
def answer (e : Executor σ) (images : Option Images) :
    Except RequestError Prepared → Running σ (Except RequestError (Record × Option UndoEntry))
  | .ok p => attempt (e.send true images p)
  | .error error => pure (.error error)

/-- The run after an item that succeeded. -/
def taken (e : Executor σ) (run : Run) (index : Nat) (r : Record) (undo : Option UndoEntry) : Run :=
  ⟨run.result.record index (e.clean r), match undo with
    | some u => run.log.record u
    | none => run.log⟩

/-- Sends items one after the other until one fails. -/
def sendUntil (e : Executor σ) (images : Option Images) (run : Run) :
    List (Nat × Except RequestError Prepared) → Running σ (Run × Option RequestError)
  | [] => pure (run, none)
  | (index, item) :: rest => do
    match ← e.answer images item with
    | .ok (r, undo) => e.sendUntil images (e.taken run index r undo) rest
    | .error error => pure (run, some error)

theorem ran_answer (e : Executor σ) (images : Option Images) (item : Except RequestError Prepared)
    (p : Progress σ) : ∃ outcome after, ran (e.answer images item) p = (.ok outcome, after) := by
  cases item with
  | error error => exact ⟨_, _, rfl⟩
  | ok item => exact ⟨_, _, ran_attempt _ p⟩

/-- Sending all items is sending them until one fails, and undoing what was done then. -/
theorem ran_sendAll (e : Executor σ) {policy : Policy} (rollback : policy.rollback = true)
    (stops : policy.continueOnError = false) (images : Option Images)
    (items : List (Nat × Except RequestError Prepared)) (run : Run) (p : Progress σ) :
    ran (e.sendAll policy images run items) p = match ran (e.sendUntil images run items) p with
      | (.ok (run', none), after) => (.ok run', after)
      | (.ok (run', some error), after) => (.error error,
          (ran (e.rollBack run'.log) { after with state := .rolledBack }).2)
      | (.error error, after) => (.error error, after) := by
  induction items generalizing run p with
  | nil => rfl
  | cons item rest ih =>
    obtain ⟨index, item⟩ := item
    obtain ⟨outcome, after, answered⟩ := ran_answer e images item p
    have sent : e.sendAll policy images run ((index, item) :: rest) = (do
        let outcome ← e.answer images item
        let run ← e.settle policy run index outcome
        e.sendAll policy images run rest) := by
      cases item <;> simp only [sendAll, answer, rollback]
    rw [sent, ran_bind_ok answered, sendUntil, ran_bind_ok answered]
    cases outcome with
    | ok pair =>
      obtain ⟨r, undo⟩ := pair
      exact ih (e.taken run index r undo) after
    | error error =>
      have settled : e.settle policy run index (.error error) = (do
          enter .rolledBack
          e.rollBack run.log
          throw error) := by
        simp only [settle, rollback, stops, Bool.false_eq_true, if_false, if_true]
      rw [settled]
      rfl

/-- Items that a store with the given records takes and can take back. -/
structure Sendable (k : Keeping σ) (item : Prepared) : Prop where
  write : item.verb.isWrite = true
  fits : k.fits item.record
  returns : item.verb = .delete → ∀ key, item.key = some key → k.returns key

variable {b : Backend σ} {k : Keeping σ} {e : Executor (Faulty σ)}

theorem foreseen_of_erodes {table : String} {key : RecordKey} {r : Record} {s s' : σ}
    (foreseen : k.Foreseen table key s (some r)) (erodes : k.Erodes table s s') :
    k.Foreseen table key s' (some r) := by
  obtain ⟨q, shown, held⟩ := foreseen
  refine ⟨q, shown, ?_⟩
  rcases erodes key with gone | same
  · exact .inl gone
  · rw [same]
    exact held

/-- What was found out before about the records that items delete. -/
def Known (k : Keeping σ) (table : String) (images : Option Images) (item : Prepared) (s : σ) :
    Prop :=
  ∀ found, images = some found → item.verb = .delete ∧
    ∀ key, item.key = some key → ∀ r, found.of? key = some r → k.Foreseen table key s (some r)

theorem Known.later {table : String} {images : Option Images} {item : Prepared} {s s' : σ}
    (known : Known k table images item s)
    (erodes : images ≠ none → k.Erodes table s s') : Known k table images item s' := by
  intro found same
  refine ⟨(known found same).1, fun key is r image => ?_⟩
  refine foreseen_of_erodes ((known found same).2 key is r image) (erodes ?_)
  rw [same]
  exact Option.some_ne_none found

/-- However far the items come, the log restores what the batch began with. -/
theorem restores_sendUntil (keeps : b.Keeps k) (faulty : e.backend = Faulty.backend b)
    {images : Option Images} {items : List (Nat × Except RequestError Prepared)} {start : σ}
    (run : Run) {p : Progress (Faulty σ)}
    (sendable : ∀ i ∈ items, ∀ item, i.2 = .ok item → Sendable k item)
    (known : ∀ i ∈ items, ∀ item, i.2 = .ok item → Known k e.table images item p.store.store)
    (restores : k.Restores b e.table run.log start p.store.store) :
    ∃ run' error after, ran (e.sendUntil images run items) p = (.ok (run', error), after) ∧
      k.Restores b e.table run'.log start after.store.store := by
  -- the induction is on the items, and the log's promise is carried from each to the next
  induction items generalizing run p with
  | nil => exact ⟨run, none, p, rfl, restores⟩
  | cons i rest ih =>
    obtain ⟨index, item⟩ := i
    cases item with
    | error error => exact ⟨run, some error, p, rfl, restores⟩
    | ok item =>
      rcases sent : ran (e.send true images item) p with ⟨outcome, after⟩
      have can := sendable _ List.mem_cons_self item rfl
      have here := known _ List.mem_cons_self item rfl
      have reverts := reverts_send keeps faulty restores.sound can.write can.fits can.returns here sent
      have answered : ran (e.answer images (.ok item)) p = (.ok outcome, after) := by
        rw [answer, ran_attempt, sent]
      rw [sendUntil, ran_bind_ok answered]
      cases outcome with
      | error error => exact ⟨run, some error, after, rfl, restores.unchanged reverts⟩
      | ok pair =>
        obtain ⟨r, undo⟩ := pair
        have erodes : images ≠ none → k.Erodes e.table p.store.store after.store.store := by
          intro looked
          obtain ⟨found, same⟩ := Option.ne_none_iff_exists'.mp looked
          cases undo with
          | none => exact Keeping.Unchanged.erodes reverts e.table
          | some u => exact reverts.2 (here found same).1
        have later : k.Restores b e.table (e.taken run index r undo).log start after.store.store := by
          cases undo with
          | none => exact restores.unchanged reverts
          | some u => exact restores.record reverts.1
        exact ih _ (fun j member => sendable j (List.mem_cons_of_mem _ member))
          (fun j member other same =>
            (known j (List.mem_cons_of_mem _ member) other same).later erodes) later

/-- The indices at which a result has outcomes are all before one. -/
def Before (result : BatchResult) (index : Nat) : Prop := ∀ o ∈ result.outcomes, o.1 < index

theorem placeOutcome_last {index : Nat} {o : Outcome} {outcomes : List (Nat × Outcome)}
    (last : ∀ other ∈ outcomes, other.1 < index) :
    BatchResult.placeOutcome index o outcomes = outcomes ++ [(index, o)] := by
  induction outcomes with
  | nil => rfl
  | cons other rest ih =>
    have less := last other List.mem_cons_self
    have different : index ≠ other.1 := Nat.ne_of_gt less
    have after : ¬ index < other.1 := Nat.not_lt.mpr (Nat.le_of_lt less)
    rw [BatchResult.placeOutcome, if_neg different, if_neg after,
      ih fun next member => last next (List.mem_cons_of_mem other member)]
    rfl

theorem records_record {result : BatchResult} {index : Nat} {r : Record}
    (before : Before result index) :
    (result.record index r).records.length = result.records.length + 1 := by
  unfold BatchResult.record BatchResult.records
  rw [placeOutcome_last before, List.filterMap_append, List.length_append]
  rfl

theorem Before.record {result : BatchResult} {index later : Nat} {r : Record}
    (before : Before result index) (less : index < later) :
    Before (result.record index r) later := by
  intro o member
  unfold BatchResult.record at member
  rw [placeOutcome_last before] at member
  rcases List.mem_append.mp member with member | member
  · exact Nat.lt_trans (before o member) less
  · rw [List.mem_singleton.mp member]
    exact less

/-- A run that no item stopped has a record for each. -/
theorem records_sendUntil {e : Executor σ} {images : Option Images}
    {items : List (Nat × Except RequestError Prepared)} {run run' : Run} {p after : Progress σ}
    (ordered : (items.map Prod.fst).Pairwise (· < ·)) (before : ∀ i ∈ items, Before run.result i.1)
    (ended : ran (e.sendUntil images run items) p = (.ok (run', none), after)) :
    run'.result.failed = run.result.failed ∧
      run'.result.records.length = run.result.records.length + items.length := by
  induction items generalizing run p with
  | nil =>
    cases ended
    exact ⟨rfl, rfl⟩
  | cons i rest ih =>
    obtain ⟨index, item⟩ := i
    obtain ⟨outcome, p', answered⟩ := ran_answer e images item p
    rw [sendUntil, ran_bind_ok answered] at ended
    cases outcome with
    | error error => cases ended
    | ok pair =>
      obtain ⟨r, undo⟩ := pair
      have here := before _ List.mem_cons_self
      rw [List.map_cons, List.pairwise_cons] at ordered
      have later : ∀ i ∈ rest, Before (e.taken run index r undo).result i.1 := by
        intro j member
        exact here.record (ordered.1 j.1 (List.mem_map_of_mem member))
      have others := ih ordered.2 later ended
      refine ⟨others.1, ?_⟩
      have count : (e.taken run index r undo).result.records.length =
          run.result.records.length + 1 := records_record here
      rw [others.2, count, List.length_cons]
      omega

theorem records_shown (e : Executor σ) (snapshots : Images) {pairs : List (Prepared × Record)}
    (result : BatchResult) (ordered : (pairs.map fun pair => pair.1.index).Pairwise (· < ·))
    (before : ∀ pair ∈ pairs, Before result pair.1.index) :
    let final := pairs.foldl
      (fun result (item, r) => result.record item.index (e.clean (shown snapshots item r))) result
    final.failed = result.failed ∧
      final.records.length = result.records.length + pairs.length := by
  induction pairs generalizing result with
  | nil => exact ⟨rfl, rfl⟩
  | cons pair rest ih =>
    have here := before _ List.mem_cons_self
    rw [List.map_cons, List.pairwise_cons] at ordered
    have others := ih (result.record pair.1.index (e.clean (shown snapshots pair.1 pair.2)))
      ordered.2 fun next member =>
        here.record (ordered.1 _ (List.mem_map_of_mem (f := fun pair => pair.1.index) member))
    refine ⟨others.1, ?_⟩
    have count := records_record (r := e.clean (shown snapshots pair.1 pair.2)) here
    rw [List.foldl_cons, others.2, count, List.length_cons]
    omega

end Executor

end StoreGateway

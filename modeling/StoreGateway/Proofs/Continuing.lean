import StoreGateway.Proofs.AllOrNothing
import StoreGateway.Proofs.Outcomes
import StoreGateway.Store.Observed
import StoreGateway.Table.Store

/-!
Batches that go on past failures. Every item of such a batch gets an outcome, whatever the store
answers to the calls for the items; only the queries that are made before the items are taken up can
end the batch.
-/

namespace StoreGateway

open Running

variable {σ : Type}

/-- Every index of the operations has one outcome, and no other index has any. -/
structure BatchResult.Answers (b : BatchResult) (ops : List Operation) : Prop where
  once : b.indices.Pairwise (· < ·)
  members : ∀ i, i ∈ b.indices ↔ ∃ op ∈ ops, op.index = i

namespace Executor

/-- The queries that a batch makes before it takes up its items, once its policy is settled. -/
def readAhead (e : Executor σ) (policy : Policy) (ops : List Operation) : Running σ Unit :=
  match e.route policy (e.items ops) with
  | .reads partition prepared => do let _ ← e.fetch partition prepared
  | .deletes partition prepared => do let _ ← e.fetch partition prepared
  | _ => pure ()

/-- The queries that a batch makes before it takes up its items. -/
def lookAhead (e : Executor σ) : List Operation → Running σ Unit
  | [] => pure ()
  | first :: more => e.readAhead (e.policy first.verb (first :: more).length) (first :: more)

theorem lookAhead_nothing (e : Executor σ) {first : Operation} {more : List Operation}
    (other : e.backend.kind ≠ .table ∨ first.verb ≠ .get ∧ first.verb ≠ .delete) :
    e.lookAhead (first :: more) = pure () := by
  rw [lookAhead, readAhead]
  rcases route_cases e (e.policy first.verb (first :: more).length) (e.items (first :: more)) with
    way | ⟨partition, prepared, -, -, ⟨way, -⟩ | ⟨way, kind, verb⟩ | ⟨way, kind, verb⟩⟩
  · rw [way]
  · rw [way]
  · exact (other.elim (fun away => away kind) fun verbs => verbs.1 verb).elim
  · exact (other.elim (fun away => away kind) fun verbs => verbs.2 verb).elim

theorem index_prepare {kind : StoreKind} {partition : Option String} {op : Operation}
    {item : Prepared} (prepared : op.prepare kind partition = .ok item) : item.index = op.index := by
  obtain ⟨key, -, rfl⟩ := prepare_cases prepared
  rfl

theorem items_indices (e : Executor σ) (ops : List Operation) :
    (e.items ops).map Prod.fst = ops.map Operation.index := by
  rw [items, List.map_map]
  rfl

theorem prepared_indices (e : Executor σ) {ops : List Operation} {prepared : List Prepared}
    (all : allPrepared? (e.items ops) = some prepared) :
    prepared.map Prepared.index = ops.map Operation.index := by
  rw [← items_indices e]
  refine allPrepared_indices all fun i member item same => ?_
  obtain ⟨op, -, rfl⟩ := List.mem_map.mp member
  exact index_prepare same

variable {e : Executor σ} {policy : Policy}

theorem settle_continued (e : Executor σ) (continues : policy.continueOnError = true) (run : Run)
    (index : Nat) (outcome : Except RequestError (Record × Option UndoEntry)) (p : Progress σ) :
    ∃ run', ran (e.settle policy run index outcome) p = (.ok run', p) ∧
      run.result.Gains run'.result [index] := by
  cases outcome with
  | ok pair => exact ⟨_, rfl, BatchResult.gains_place rfl⟩
  | error error =>
    rw [settle, if_pos continues]
    exact ⟨_, rfl, BatchResult.gains_place rfl⟩

theorem sendAll_continued (e : Executor σ) (continues : policy.continueOnError = true)
    (images : Option Images) (items : List (Nat × Except RequestError Prepared)) (run : Run)
    (p : Progress σ) :
    ∃ run' after, ran (e.sendAll policy images run items) p = (.ok run', after) ∧
      run.result.Gains run'.result (items.map Prod.fst) := by
  induction items generalizing run p with
  | nil => exact ⟨run, p, rfl, BatchResult.gains_nothing⟩
  | cons first rest ih =>
    obtain ⟨index, item⟩ := first
    have goesOn (outcome : Except RequestError (Record × Option UndoEntry)) (q : Progress σ) :
        ∃ run' after,
          ran (do e.sendAll policy images (← e.settle policy run index outcome) rest) q =
            (.ok run', after) ∧
          run.result.Gains run'.result (index :: rest.map Prod.fst) := by
      obtain ⟨here, settled, gains⟩ := settle_continued e continues run index outcome q
      obtain ⟨run', after, ended, others⟩ := ih here q
      rw [ran_bind_ok settled]
      exact ⟨run', after, ended, gains.append others⟩
    cases item with
    | error error => exact goesOn (.error error) p
    | ok item =>
      rw [sendAll, ran_bind_ok (ran_attempt _ p)]
      exact goesOn _ _

theorem answerAll_continued (e : Executor σ) (continues : policy.continueOnError = true)
    (found : Images) (items : List Prepared) (run : Run) (p : Progress σ) :
    ∃ run', ran (e.answerAll policy found run items) p = (.ok run', p) ∧
      run.result.Gains run'.result (items.map Prepared.index) := by
  induction items generalizing run with
  | nil => exact ⟨run, rfl, BatchResult.gains_nothing⟩
  | cons item rest ih =>
    rw [answerAll]
    obtain ⟨here, settled, gains⟩ := settle_continued e continues run item.index _ p
    obtain ⟨run', ended, others⟩ := ih here
    refine ⟨run', ?_, gains.append others⟩
    rw [ran_bind_ok settled]
    exact ended

theorem answers_of_gains {ops : List Operation} {result : BatchResult}
    (gains : BatchResult.empty.Gains result (ops.map Operation.index)) : result.Answers ops := by
  refine ⟨gains.sorted List.Pairwise.nil, fun i => ?_⟩
  rw [gains.members, List.mem_map]
  exact or_iff_right List.not_mem_nil

theorem conduct_continued (e : Executor σ) (continues : policy.continueOnError = true)
    (forward : policy.rollback = false) (ops : List Operation) (p : Progress σ) :
    ((ran (e.readAhead policy ops) p).1 = .ok () ∧ ∃ result after,
        ran (e.conduct policy ops) p = (.ok result, after) ∧ result.Answers ops) ∨
      ∃ error, (ran (e.readAhead policy ops) p).1 = .error error ∧
        (ran (e.conduct policy ops) p).1 = .error error := by
  have sent (images : Option Images) (q : Progress σ) : ∃ result after,
      ran (do commit (← e.sendAll policy images ⟨.empty, .empty⟩ (e.items ops))) q =
        (.ok result, after) ∧ result.Answers ops := by
    obtain ⟨run, after, ended, gains⟩ :=
      sendAll_continued e continues images (e.items ops) ⟨.empty, .empty⟩ q
    rw [items_indices] at gains
    rw [ran_bind_ok ended]
    exact ⟨run.result, _, rfl, answers_of_gains gains⟩
  have fetching {partition : String} {prepared : List Prepared} {next : Images → Running σ BatchResult}
      (answers : ∀ found q, ∃ result after, ran (next found) q = (.ok result, after) ∧
        result.Answers ops) :
      ((ran (do let _ ← e.fetch partition prepared : Running σ Unit) p).1 = .ok () ∧
          ∃ result after, ran (e.fetch partition prepared >>= next) p = (.ok result, after) ∧
            result.Answers ops) ∨
        ∃ error, (ran (do let _ ← e.fetch partition prepared : Running σ Unit) p).1 = .error error ∧
          (ran (e.fetch partition prepared >>= next) p).1 = .error error := by
    rcases fetched : ran (e.fetch partition prepared) p with ⟨outcome, q⟩
    cases outcome with
    | error error =>
      rw [ran_bind_error fetched, ran_bind_error fetched]
      exact .inr ⟨error, rfl, rfl⟩
    | ok found =>
      rw [ran_bind_ok fetched, ran_bind_ok fetched]
      exact .inl ⟨rfl, answers found q⟩
  rcases route_cases e policy (e.items ops) with
    way | ⟨partition, prepared, all, -, ⟨-, rollback, -⟩ | ⟨way, -⟩ | ⟨way, -⟩⟩
  · rw [readAhead, conduct, way]
    exact .inl ⟨rfl, sent none p⟩
  · rw [forward] at rollback
    cases rollback
  · rw [readAhead, conduct, way]
    refine fetching fun found q => ?_
    obtain ⟨run, ended, gains⟩ := answerAll_continued e continues found prepared ⟨.empty, .empty⟩ q
    rw [prepared_indices e all] at gains
    rw [ran_bind_ok ended]
    exact ⟨run.result, _, rfl, answers_of_gains gains⟩
  · rw [readAhead, conduct, way]
    exact fetching fun images q => sent (some images) q

/-- A batch that goes on past failures and undoes nothing has one outcome for each of its indices,
whatever the store answers to whichever call, exactly if the queries ahead of its items succeed. If
one of those fails, the batch fails as it does. -/
theorem continued_batch_answers (e : Executor σ) {ops : List Operation} (several : 2 ≤ ops.length)
    (continues : e.options.continueOnError = true) (forward : e.options.rollback = false)
    (p : Progress σ) :
    ((∃ result after, ran (e.execute ops) p = (.ok result, after) ∧ result.Answers ops) ↔
        (ran (e.lookAhead ops) { p with state := .collecting }).1 = .ok ()) ∧
      ∀ error, (ran (e.lookAhead ops) { p with state := .collecting }).1 = .error error →
        (ran (e.execute ops) p).1 = .error error := by
  cases ops with
  | nil => cases several
  | cons first more =>
    let policy := e.policy first.verb (first :: more).length
    let begun : Progress σ := { p with state := .collecting }
    have total : ((first :: more).length != 1) = true := by
      simp only [bne_iff_ne]
      omega
    have goesOn : policy.continueOnError = true := by
      change (e.options.continueOnError && (first :: more).length != 1) = true
      rw [continues, total]
      rfl
    have keeps : policy.rollback = false := by
      change (e.options.rollback && (first :: more).length != 1) = false
      rw [forward]
      rfl
    have allowed : ¬ (policy.rollback && policy.continueOnError) = true := by
      rw [keeps, Bool.false_and]
      exact Bool.false_ne_true
    have executed : ran (e.execute (first :: more)) p =
        ran (e.conduct policy (first :: more)) begun := by
      rw [(execute_cons e first more).trans (if_neg allowed), ran_bind_ok (ran_enter _ p)]
    rw [executed, lookAhead]
    rcases conduct_continued e goesOn keeps (first :: more) begun with
      ⟨ahead, answers⟩ | ⟨error, ahead, ended⟩
    · refine ⟨iff_of_true answers ahead, fun error failed => ?_⟩
      rw [ahead] at failed
      cases failed
    · refine ⟨iff_of_false ?_ ?_, fun other failed => ?_⟩
      · rintro ⟨result, after, answered, -⟩
        rw [answered] at ended
        cases ended
      · rw [ahead]
        exact fun same => by cases same
      · rw [ahead] at failed
        cases failed
        exact ended

def twoOf (verb : Verb) : List Operation :=
  Operation.ofKeys verb [.entity "P" "1", .entity "P" "2"] none

def failing (call : String) : Progress (Observed EntityTable) :=
  ⟨⟨⟨[⟨"t", "P", "1", [], ""⟩], 100, ⟨0, 0⟩⟩, [], [⟨call, none, .storage, none⟩]⟩, .idle⟩

def tolerant : Executor (Observed EntityTable) :=
  .new (Observed.backend EntityTable.backend) "t" ⟨false, true, .all, none⟩

/-- Both entities are looked up ahead; then neither is deleted, and there is an outcome for each. -/
theorem continued_batch_answers_of_failures :
    ∃ result after, ran (tolerant.execute (twoOf .delete)) (failing "delete") = (.ok result, after) ∧
      result.Answers (twoOf .delete) := by
  refine (continued_batch_answers tolerant (by decide) rfl rfl (failing "delete")).1.mpr ?_
  have looked : (ran (tolerant.lookAhead (twoOf .delete))
      { failing "delete" with state := .collecting }).1.toOption.isSome = true := by
    decide +kernel
  cases ahead : (ran (tolerant.lookAhead (twoOf .delete))
      { failing "delete" with state := .collecting }).1 with
  | error error =>
    rw [ahead] at looked
    cases looked
  | ok _ => rfl

/-- When the query for both entities fails there is no outcome for either. -/
theorem continued_reads_aborted :
    ¬ ∃ result after, ran (tolerant.execute (twoOf .get)) (failing "query") = (.ok result, after) ∧
      result.Answers (twoOf .get) := by
  have aborted : (ran (tolerant.execute (twoOf .get)) (failing "query")).1.toOption.isNone = true := by
    decide +kernel
  rintro ⟨result, after, run, -⟩
  rw [run] at aborted
  cases aborted

end Executor

end StoreGateway

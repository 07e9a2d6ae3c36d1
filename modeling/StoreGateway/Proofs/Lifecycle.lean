import StoreGateway.Proofs.Continuing
import StoreGateway.Proofs.ItemRuns

/-!
The state that a batch is left in. A batch that is taken up ends committed if it succeeds, and undone
or failed if one of its items or its submission fails. Only the records that are looked up before the
items are taken up are outside of this: where their query fails, the batch fails with it and is left
as it was begun.
-/

namespace StoreGateway

open Running

variable {σ : Type}

/-- A batch that succeeds is committed, and one that fails is undone or has failed. -/
def Finished : Except RequestError BatchResult × Progress σ → Prop
  | (.ok _, after) => after.state = .committed
  | (.error _, after) => after.state = .rolledBack ∨ after.state = .failed

namespace Executor

/-- Why a batch is not taken up. -/
def refusal? (e : Executor σ) : List Operation → Option RequestError
  | [] => some (.badRequest .noRecords)
  | _ :: more =>
    if e.options.rollback && e.options.continueOnError && !more.isEmpty then
      some .conflictingPolicies
    else none

/-- The records that a batch looks up before its items reach the store. -/
def imagesAhead (e : Executor σ) (policy : Policy) : Route → Running σ Images
  | .atomic partition prepared =>
    if policy.verb = .delete then e.fetch partition prepared else pure []
  | .reads partition prepared => e.fetch partition prepared
  | .deletes partition prepared => e.fetch partition prepared
  | .oneByOne => pure []

/-- The lookups of a batch, from the verb of its first item. -/
def ahead (e : Executor σ) : List Operation → Running σ Images
  | [] => pure []
  | first :: more =>
    let policy := e.policy first.verb (first :: more).length
    e.imagesAhead policy (e.route policy (e.items (first :: more)))

/-- A batch once its lookups are made. -/
def finish (e : Executor σ) (policy : Policy) (items : List (Nat × Except RequestError Prepared))
    (looked : Images) : Route → Running σ BatchResult
  | .atomic _ prepared => e.deliver prepared looked
  | .reads _ prepared => do commit (← e.answerAll policy looked ⟨.empty, .empty⟩ prepared)
  | .deletes _ _ => do commit (← e.sendAll policy (some looked) ⟨.empty, .empty⟩ items)
  | .oneByOne => do commit (← e.sendAll policy none ⟨.empty, .empty⟩ items)

theorem conduct_eq (e : Executor σ) (policy : Policy) (ops : List Operation) :
    e.conduct policy ops = e.imagesAhead policy (e.route policy (e.items ops)) >>= fun looked =>
      e.finish policy (e.items ops) looked (e.route policy (e.items ops)) := by
  unfold conduct
  cases e.route policy (e.items ops) with
  | atomic partition prepared => exact submit_eq e policy partition prepared
  | reads partition prepared => rfl
  | deletes partition prepared => rfl
  | oneByOne => rfl

theorem state_queryAll (e : Executor σ) (texts : List String) (images : Images) (p : Progress σ) :
    (ran (e.queryAll images texts) p).2.state = p.state := by
  induction texts generalizing images p with
  | nil => rfl
  | cons text rest ih =>
    exact ran_bind_keeps (P := fun q : Progress σ => q.state = p.state) (state_perform _ p)
      fun records q same => (ih (addImages images records) q).trans same

theorem state_imagesAhead (e : Executor σ) (policy : Policy) (route : Route) (p : Progress σ) :
    (ran (e.imagesAhead policy route) p).2.state = p.state := by
  cases route with
  | atomic partition prepared =>
    by_cases delete : policy.verb = .delete
    · rw [imagesAhead, if_pos delete]
      exact state_queryAll e _ [] p
    · rw [imagesAhead, if_neg delete]
      rfl
  | reads partition prepared => exact state_queryAll e _ [] p
  | deletes partition prepared => exact state_queryAll e _ [] p
  | oneByOne => rfl

theorem settle_finishes (e : Executor σ) (policy : Policy) (run : Run) (index : Nat)
    (outcome : Except RequestError (Record × Option UndoEntry)) (p : Progress σ) :
    (∃ run', ran (e.settle policy run index outcome) p = (.ok run', p)) ∨
      ∃ error after, ran (e.settle policy run index outcome) p = (.error error, after) ∧
        (after.state = .rolledBack ∨ after.state = .failed) := by
  cases outcome with
  | ok pair => exact .inl ⟨_, rfl⟩
  | error error =>
    rw [settle]
    by_cases continues : policy.continueOnError = true
    · rw [if_pos continues]
      exact .inl ⟨_, rfl⟩
    · rw [if_neg continues]
      by_cases rollback : policy.rollback = true
      · rw [if_pos rollback]
        exact .inr ⟨error, _, rfl, .inl rfl⟩
      · rw [if_neg rollback]
        by_cases single : policy.total = 1
        · refine .inr ⟨error, { p with state := .failed }, ?_, .inr rfl⟩
          simp only [if_pos single]
          rfl
        · refine .inr ⟨.batch policy.verb.failureMessage (run.result.fail index error.message).failed
            (run.result.fail index error.message).resource error, { p with state := .failed }, ?_,
            .inr rfl⟩
          simp only [if_neg single]
          rfl

theorem finished_settle (e : Executor σ) (policy : Policy) (run : Run) (index : Nat)
    (outcome : Except RequestError (Record × Option UndoEntry)) (p : Progress σ)
    {next : Run → Running σ Run}
    (others : ∀ run, Finished (ran (next run >>= commit) p)) :
    Finished (ran ((e.settle policy run index outcome >>= next) >>= commit) p) := by
  rcases settle_finishes e policy run index outcome p with
    ⟨run', settled⟩ | ⟨error, after, ended, final⟩
  · have same : ran ((e.settle policy run index outcome >>= next) >>= commit) p =
        ran (next run' >>= commit) p := by
      rw [bind_assoc, ran_bind_ok settled]
    rw [same]
    exact others run'
  · rw [ran_bind_error (ran_bind_error ended)]
    exact final

theorem finished_sendAll (e : Executor σ) (policy : Policy) (images : Option Images)
    (items : List (Nat × Except RequestError Prepared)) (run : Run) (p : Progress σ) :
    Finished (ran (e.sendAll policy images run items >>= commit) p) := by
  induction items generalizing run p with
  | nil => exact rfl
  | cons first rest ih =>
    obtain ⟨index, item⟩ := first
    cases item with
    | error error => exact finished_settle e policy run index (.error error) p fun run' => ih run' p
    | ok item =>
      rw [sendAll, bind_assoc, ran_bind_ok (ran_attempt _ p)]
      exact finished_settle e policy run index _ _ fun run' => ih run' _

theorem finished_answerAll (e : Executor σ) (policy : Policy) (found : Images)
    (items : List Prepared) (run : Run) (p : Progress σ) :
    Finished (ran (e.answerAll policy found run items >>= commit) p) := by
  induction items generalizing run with
  | nil => exact rfl
  | cons item rest ih => exact finished_settle e policy run item.index _ p ih

theorem finished_deliver (e : Executor σ) (items : List Prepared) (snapshots : Images)
    (p : Progress σ) : Finished (ran (e.deliver items snapshots) p) := by
  rw [deliver, ran_bind_ok (ran_enter _ p), ran_bind_ok (ran_call _ _)]
  rcases (ran (e.backend.submitBatch e.table (items.map e.write)) p.store).1 with fault | records
  · cases fault with
    | batch index source => exact .inl rfl
    | _ => exact .inr rfl
  · exact rfl

theorem finished_finish (e : Executor σ) (policy : Policy)
    (items : List (Nat × Except RequestError Prepared)) (looked : Images) (route : Route)
    (p : Progress σ) : Finished (ran (e.finish policy items looked route) p) := by
  cases route with
  | atomic partition prepared => exact finished_deliver e prepared looked p
  | reads partition prepared => exact finished_answerAll e policy looked prepared ⟨.empty, .empty⟩ p
  | deletes partition prepared =>
    exact finished_sendAll e policy (some looked) items ⟨.empty, .empty⟩ p
  | oneByOne => exact finished_sendAll e policy none items ⟨.empty, .empty⟩ p

theorem execute_eq (e : Executor σ) (first : Operation) (more : List Operation) :
    e.execute (first :: more) = match e.refusal? (first :: more) with
      | some error => throw error
      | none => enter .collecting >>= fun _ =>
          e.conduct (e.policy first.verb (first :: more).length) (first :: more) := by
  have conflict : ((e.policy first.verb (first :: more).length).rollback &&
      (e.policy first.verb (first :: more).length).continueOnError) =
        (e.options.rollback && e.options.continueOnError && !more.isEmpty) := by
    cases more with
    | nil => simp [policy]
    | cons second rest => simp [policy]
  rw [execute_cons, refusal?]
  simp only [conflict]
  cases e.options.rollback && e.options.continueOnError && !more.isEmpty <;> rfl

/-- A batch that is refused leaves its state as it is. Any other is left in its final state exactly if
the records that it looks up ahead are found: committed if it succeeds, undone or failed if it fails.
Where the lookup fails, the batch fails with that error while it is still collecting. -/
theorem batch_finished_iff (e : Executor σ) (ops : List Operation) (p : Progress σ) :
    (∀ error, e.refusal? ops = some error → ran (e.execute ops) p = (.error error, p)) ∧
      (e.refusal? ops = none →
        (Finished (ran (e.execute ops) p) ↔
          ∃ looked, (ran (e.ahead ops) { p with state := .collecting }).1 = .ok looked) ∧
        ∀ error, (ran (e.ahead ops) { p with state := .collecting }).1 = .error error →
          (ran (e.execute ops) p).1 = .error error ∧
            (ran (e.execute ops) p).2.state = .collecting) := by
  cases ops with
  | nil => exact ⟨fun error refused => by cases refused; rfl, fun taken => by cases taken⟩
  | cons first more =>
    refine ⟨fun error refused => ?_, fun taken => ?_⟩
    · rw [execute_eq, refused]
      rfl
    let policy := e.policy first.verb (first :: more).length
    let items := e.items (first :: more)
    let begun : Progress σ := { p with state := .collecting }
    have executed : ran (e.execute (first :: more)) p =
        ran (e.imagesAhead policy (e.route policy items) >>= fun looked =>
          e.finish policy items looked (e.route policy items)) begun := by
      rw [execute_eq, taken]
      exact (ran_bind_ok (ran_enter _ p)).trans (congrArg (ran · begun) (conduct_eq e policy _))
    rw [executed, ahead]
    have still := state_imagesAhead e policy (e.route policy items) begun
    rcases made : ran (e.imagesAhead policy (e.route policy items)) begun with ⟨outcome, q⟩
    rw [made] at still
    cases outcome with
    | ok looked =>
      rw [ran_bind_ok made]
      exact ⟨iff_of_true (finished_finish e policy items looked _ q) ⟨looked, rfl⟩,
        fun error failed => by cases failed⟩
    | error error =>
      rw [ran_bind_error made]
      refine ⟨iff_of_false ?_ (fun ⟨looked, found⟩ => by cases found), fun other failed => ?_⟩
      · intro final
        have collecting : q.state = .collecting := still
        rcases final with final | final <;> rw [collecting] at final <;> cases final
      · cases failed
        exact ⟨rfl, still⟩

/-- Stopping at the first failure. -/
def halting : Executor (Observed EntityTable) :=
  .new (Observed.backend EntityTable.backend) "t" ⟨false, false, .all, none⟩

/-- Two entities that are looked up and then not deleted end their batch as failed; nothing to delete
leaves it as it was. -/
theorem batch_finished_of_failed_delete :
    Finished (ran (halting.execute (twoOf .delete)) (failing "delete")) ∧
      ran (halting.execute []) (failing "delete") =
        (.error (.badRequest .noRecords), failing "delete") := by
  have looked : (ran (halting.ahead (twoOf .delete))
      { failing "delete" with state := .collecting }).1.toOption.isSome = true := by
    decide +kernel
  refine ⟨((batch_finished_iff halting (twoOf .delete) (failing "delete")).2 rfl).1.mpr ?_,
    (batch_finished_iff halting [] (failing "delete")).1 _ rfl⟩
  cases found : (ran (halting.ahead (twoOf .delete))
      { failing "delete" with state := .collecting }).1 with
  | error error =>
    rw [found] at looked
    cases looked
  | ok images => exact ⟨images, rfl⟩

/-- A batch whose lookup fails is neither committed nor undone nor failed. -/
theorem failed_lookup_unfinished : halting.refusal? (twoOf .get) = none ∧
    ¬ Finished (ran (halting.execute (twoOf .get)) (failing "query")) := by
  have state : (ran (halting.execute (twoOf .get)) (failing "query")).2.state = .collecting := by
    decide +kernel
  refine ⟨rfl, fun finished => ?_⟩
  rcases ended : ran (halting.execute (twoOf .get)) (failing "query") with ⟨outcome, after⟩
  rw [ended] at state finished
  have collecting : after.state = .collecting := state
  cases outcome with
  | ok result => cases collecting.symm.trans finished
  | error error => rcases finished with final | final <;> cases collecting.symm.trans final

end Executor

end StoreGateway

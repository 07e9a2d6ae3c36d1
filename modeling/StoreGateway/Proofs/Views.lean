import StoreGateway.Proofs.AllOrNothing

/-!
A store that is seen as another one, because each of its calls ends as that of the other does. Main
statement: batches of the same items end alike on both.
-/

namespace StoreGateway

open Running

variable {σ τ α β : Type}

/-- Ends as the other call does on what is seen of the store. -/
def Call.Sees (view : τ → σ) (c' : Call τ α) (c : Call σ α) : Prop :=
  ∀ t, ran c (view t) = ((ran c' t).1, view (ran c' t).2)

structure Backend.Sees (view : τ → σ) (b' : Backend τ) (b : Backend σ) : Prop where
  kind : b'.kind = b.kind
  query : ∀ table q, Call.Sees view (b'.query table q) (b.query table q)
  get : ∀ table key, Call.Sees view (b'.get table key) (b.get table key)
  insert : ∀ table r, Call.Sees view (b'.insert table r) (b.insert table r)
  replace : ∀ table key r, Call.Sees view (b'.replace table key r) (b.replace table key r)
  upsert : ∀ table key r, Call.Sees view (b'.upsert table key r) (b.upsert table key r)
  merge : ∀ table key r, Call.Sees view (b'.merge table key r) (b.merge table key r)
  delete : ∀ table key, Call.Sees view (b'.delete table key) (b.delete table key)
  submitBatch : ∀ table writes,
    Call.Sees view (b'.submitBatch table writes) (b.submitBatch table writes)

theorem Backend.Sees.refl (b : Backend σ) : b.Sees id b :=
  ⟨rfl, fun _ _ _ => rfl, fun _ _ _ => rfl, fun _ _ _ => rfl, fun _ _ _ _ => rfl,
    fun _ _ _ _ => rfl, fun _ _ _ _ => rfl, fun _ _ _ => rfl, fun _ _ _ => rfl⟩

/-- The progress with the store as it is seen. -/
def Progress.seen (view : τ → σ) (p : Progress τ) : Progress σ := ⟨view p.store, p.state⟩

namespace Running

variable {view : τ → σ}

def Sees (view : τ → σ) (c' : Running τ α) (c : Running σ α) : Prop :=
  ∀ p, ran c (p.seen view) = ((ran c' p).1, (ran c' p).2.seen view)

theorem sees_pure (a : α) : Sees view (pure a : Running τ α) (pure a) := fun _ => rfl

theorem sees_throw (error : RequestError) :
    Sees view (throw error : Running τ α) (throw error) := fun _ => rfl

theorem sees_enter (state : BatchState) : Sees view (enter state) (enter state) := fun _ => rfl

theorem Sees.bind {c' : Running τ α} {c : Running σ α} {next' : α → Running τ β}
    {next : α → Running σ β} (first : Sees view c' c) (rest : ∀ a, Sees view (next' a) (next a)) :
    Sees view (c' >>= next') (c >>= next) := by
  intro p
  have here := first p
  rcases run : ran c' p with ⟨outcome, after⟩
  rw [run] at here
  cases outcome with
  | error error => rw [ran_bind_error run, ran_bind_error here]
  | ok a =>
    rw [ran_bind_ok run, ran_bind_ok here]
    exact rest a after

theorem Sees.attempt {c' : Running τ α} {c : Running σ α} (first : Sees view c' c) :
    Sees view (attempt c') (attempt c) := by
  intro p
  rw [ran_attempt, ran_attempt, first p]

theorem sees_call {c' : Call τ α} {c : Call σ α} (same : Call.Sees view c' c) :
    Sees view (call c') (call c) := by
  intro p
  rw [ran_call, ran_call, Progress.seen, same]
  rfl

theorem sees_perform {c' : Call τ α} {c : Call σ α} (same : Call.Sees view c' c) :
    Sees view (perform c') (perform c) := by
  refine (sees_call same).bind fun outcome => ?_
  cases outcome with
  | ok a => exact sees_pure a
  | error fault => exact sees_throw _

theorem Sees.eq {c' c : Running σ α} (sees : Sees id c' c) : c' = c := by
  funext p
  exact (sees p).symm

theorem sees_lift (outcome : Except RequestError α) :
    Sees view (liftM outcome : Running τ α) (liftM outcome) := by
  cases outcome with
  | ok a => exact sees_pure a
  | error error => exact sees_throw error

end Running

/-- Undoing changes what is seen as it does on the other store. -/
theorem Backend.Sees.compensate {view : τ → σ} {b' : Backend τ} {b : Backend σ}
    (sees : b'.Sees view b) (table : String) (entries : List UndoEntry) (t : τ) :
    ((UndoLog.compensate b table entries).run (view t)).2 =
      view ((UndoLog.compensate b' table entries).run t).2 := by
  have undo (u : UndoEntry) (t : τ) :
      (ran (u.undo b table) (view t)).2 = view (ran (u.undo b' table) t).2 := by
    have ignored {c' : Call τ Record} {c : Call σ Record} (same : Call.Sees view c' c) :
        (ran (do let _ ← c : Call σ Unit) (view t)).2 =
          view (ran (do let _ ← c' : Call τ Unit) t).2 := by
      rw [ran_ignored, ran_ignored, same t]
    obtain ⟨verb, key, prior⟩ := u
    cases verb with
    | create => exact congrArg Prod.snd (sees.delete table key t)
    | replace | patch =>
      cases prior with
      | none => exact congrArg Prod.snd (sees.delete table key t)
      | some prior => exact ignored (sees.upsert table key prior)
    | delete =>
      cases prior with
      | none => rfl
      | some prior => exact ignored (sees.insert table prior)
    | get => cases prior <;> rfl
  induction entries generalizing t with
  | nil => rfl
  | cons u rest ih =>
    by_cases needed : u.isNeeded = true
    · have others := ih (ran (u.undo b' table) t).2
      rw [← undo] at others
      rw [UndoLog.compensate, UndoLog.compensate, if_pos needed, if_pos needed]
      exact others
    · rw [UndoLog.compensate, UndoLog.compensate, if_neg needed, if_neg needed]
      exact ih t

/-- Executors that treat items alike, on stores of which one is seen as the other. -/
structure Executor.Sees (view : τ → σ) (e' : Executor τ) (e : Executor σ) : Prop where
  backend : e'.backend.Sees view e.backend
  table : e'.table = e.table
  fields : e'.options.fields = e.options.fields
  upserts : e'.upsertAllowed = e.upsertAllowed
  ids : e'.maxIds = e.maxIds

namespace Executor

variable {e' : Executor τ} {e : Executor σ} {view : τ → σ}

theorem Sees.clean (sees : e'.Sees view e) : e'.clean = e.clean := by
  unfold Executor.clean
  rw [sees.backend.kind, sees.fields]

theorem sees_queryAll (sees : e'.Sees view e) (texts : List String) (images : Images) :
    Running.Sees view (e'.queryAll images texts) (e.queryAll images texts) := by
  induction texts generalizing images with
  | nil => exact sees_pure images
  | cons text rest ih =>
    rw [queryAll, queryAll, sees.table]
    exact (sees_perform (sees.backend.query e.table (.ofText text))).bind fun records =>
      ih (addImages images records)

theorem sees_fetch (sees : e'.Sees view e) (partition : String) (items : List Prepared) :
    Running.Sees view (e'.fetch partition items) (e.fetch partition items) := by
  unfold fetch
  rw [sees.ids]
  exact sees_queryAll sees _ []

theorem sees_prior (sees : e'.Sees view e) (rollback : Bool) (images : Option Images) (verb : Verb)
    (key : RecordKey) :
    Running.Sees view (e'.prior rollback images verb key) (e.prior rollback images verb key) := by
  cases images with
  | some found =>
    simp only [prior]
    cases found.of? key with
    | some r => exact sees_pure _
    | none => exact sees_throw _
  | none =>
    unfold prior
    rw [sees.fields, sees.table]
    simp only
    split
    · refine (sees_call (sees.backend.get e.table key)).bind fun outcome => ?_
      cases outcome with
      | ok r => exact sees_pure _
      | error fault =>
        cases fault with
        | notFound what => exact sees_pure _
        | _ => exact sees_throw _
    · exact sees_pure _

theorem sees_change (sees : e'.Sees view e) (item : Prepared) (key : RecordKey)
    (prior : Option Record) :
    Running.Sees view (e'.change item key prior) (e.change item key prior) := by
  unfold change
  rw [sees.table, sees.upserts]
  cases item.verb with
  | replace =>
    simp only
    split
    · exact sees_perform (sees.backend.upsert e.table key item.record)
    · exact sees_perform (sees.backend.replace e.table key item.record)
  | patch => exact sees_perform (sees.backend.merge e.table key item.record)
  | _ => exact (sees_perform (sees.backend.delete e.table key)).bind fun _ => sees_pure _

theorem sees_send (sees : e'.Sees view e) (rollback : Bool) (images : Option Images)
    (item : Prepared) :
    Running.Sees view (e'.send rollback images item) (e.send rollback images item) := by
  unfold send
  rw [sees.table, sees.upserts, sees.backend.kind]
  cases item.verb with
  | get =>
    exact (sees_lift _).bind fun key => (sees_perform (sees.backend.get e.table key)).bind fun r =>
      sees_pure _
  | create =>
    refine (sees_perform (sees.backend.insert e.table item.record)).bind fun created => ?_
    cases e.backend.kind.keyOf created none with
    | ok key => exact sees_pure _
    | error fault => exact sees_pure _
  | _ =>
    exact (sees_lift _).bind fun key => (sees_prior sees rollback images _ key).bind fun prior =>
      (sees_change sees item key prior).bind fun r => sees_pure _

theorem ran_rollBack (e : Executor σ) (log : UndoLog) (p : Progress σ) :
    ran (e.rollBack log) p = (.ok (),
      { p with store := ((UndoLog.compensate e.backend e.table log.entries).run p.store).2 }) :=
  rfl

theorem sees_settle (sees : e'.Sees view e) (policy : Policy) (run : Run) (index : Nat)
    (outcome : Except RequestError (Record × Option UndoEntry)) :
    Running.Sees view (e'.settle policy run index outcome) (e.settle policy run index outcome) := by
  have rollBack : Running.Sees view (e'.rollBack run.log) (e.rollBack run.log) := by
    intro p
    rw [ran_rollBack, ran_rollBack, sees.table]
    exact congrArg (fun s => (Except.ok (), Progress.mk s p.state))
      (sees.backend.compensate e.table run.log.entries p.store)
  unfold settle
  rw [sees.clean]
  cases outcome with
  | ok answer => exact sees_pure _
  | error error =>
    simp only
    split
    · exact sees_pure _
    · split
      · exact (sees_enter _).bind fun _ => rollBack.bind fun _ => sees_throw error
      · refine (sees_enter _).bind fun _ => ?_
        split
        · exact (sees_throw error).bind fun _ => sees_throw _
        · exact sees_throw _

theorem sees_sendAll (sees : e'.Sees view e) (policy : Policy) (images : Option Images)
    (items : List (Nat × Except RequestError Prepared)) (run : Run) :
    Running.Sees view (e'.sendAll policy images run items) (e.sendAll policy images run items) := by
  induction items generalizing run with
  | nil => exact sees_pure run
  | cons first rest ih =>
    obtain ⟨index, item⟩ := first
    have goesOn (outcome : Except RequestError (Record × Option UndoEntry)) :
        Running.Sees view
          (e'.settle policy run index outcome >>= fun run => e'.sendAll policy images run rest)
          (e.settle policy run index outcome >>= fun run => e.sendAll policy images run rest) :=
      (sees_settle sees policy run index outcome).bind ih
    cases item with
    | error error => exact (sees_pure _).bind goesOn
    | ok item => exact (sees_send sees policy.rollback images item).attempt.bind goesOn

/-- Items are sent up to the first that fails as they are on the other store. -/
theorem sees_sendUntil (sees : e'.Sees view e) (images : Option Images)
    (items : List (Nat × Except RequestError Prepared)) (run : Run) :
    Running.Sees view (e'.sendUntil images run items) (e.sendUntil images run items) := by
  have answers (item : Except RequestError Prepared) :
      Running.Sees view (e'.answer images item) (e.answer images item) := by
    cases item with
    | ok item => exact (sees_send sees true images item).attempt
    | error error => exact sees_pure _
  have taking : e'.taken = e.taken := by
    unfold taken
    rw [sees.clean]
  induction items generalizing run with
  | nil => exact sees_pure _
  | cons item rest ih =>
    rw [sendUntil, sendUntil, taking]
    refine (answers item.2).bind fun outcome => ?_
    cases outcome with
    | ok answer => exact ih _
    | error error => exact sees_pure _

theorem sees_answerAll (sees : e'.Sees view e) (policy : Policy) (found : Images)
    (items : List Prepared) (run : Run) :
    Running.Sees view (e'.answerAll policy found run items) (e.answerAll policy found run items) := by
  induction items generalizing run with
  | nil => exact sees_pure run
  | cons item rest ih => exact (sees_settle sees policy run item.index _).bind ih

theorem sees_commit (run : Run) :
    Running.Sees view (commit run : Running τ BatchResult) (commit run) :=
  (sees_enter _).bind fun _ => sees_pure _

theorem sees_submit (sees : e'.Sees view e) (policy : Policy) (partition : String)
    (items : List Prepared) :
    Running.Sees view (e'.submit policy partition items) (e.submit policy partition items) := by
  have written : e'.write = e.write := by
    unfold write
    rw [sees.upserts]
  have answered : e'.answered = e.answered := by
    unfold Executor.answered
    rw [sees.clean]
  have looked : Running.Sees view
      (if policy.verb = .delete then e'.fetch partition items else pure [])
      (if policy.verb = .delete then e.fetch partition items else pure []) := by
    split
    · exact sees_fetch sees partition items
    · exact sees_pure []
  rw [submit_eq, submit_eq]
  refine looked.bind fun snapshots => (sees_enter _).bind fun _ => ?_
  rw [written, answered, sees.table]
  refine (sees_call (sees.backend.submitBatch e.table (items.map e.write))).bind fun outcome => ?_
  cases outcome with
  | ok records => exact sees_commit _
  | error fault =>
    cases fault with
    | batch index source => exact (sees_enter _).bind fun _ => sees_throw _
    | _ => exact (sees_enter _).bind fun _ => sees_throw _

/-- A batch is run by its items and by the way they take. -/
theorem sees_conduct (sees : e'.Sees view e) {policy : Policy} {ops' ops : List Operation}
    (items : e'.items ops' = e.items ops)
    (way : e'.route policy (e.items ops) = e.route policy (e.items ops)) :
    Running.Sees view (e'.conduct policy ops') (e.conduct policy ops) := by
  unfold conduct
  rw [items, way]
  cases e.route policy (e.items ops) with
  | atomic partition prepared => exact sees_submit sees policy partition prepared
  | reads partition prepared =>
    exact (sees_fetch sees partition prepared).bind fun found =>
      (sees_answerAll sees policy found prepared _).bind sees_commit
  | deletes partition prepared =>
    exact (sees_fetch sees partition prepared).bind fun images =>
      (sees_sendAll sees policy (some images) _ _).bind sees_commit
  | oneByOne => exact (sees_sendAll sees policy none _ _).bind sees_commit

/-- Batches of the same items that are to take the same way end alike. -/
theorem sees_execute (sees : e'.Sees view e) (policies : e'.policy = e.policy)
    (routes : e'.route = e.route) {ops' ops : List Operation}
    (verbs : ops'.map Operation.verb = ops.map Operation.verb)
    (items : e'.items ops' = e.items ops) :
    Running.Sees view (e'.execute ops') (e.execute ops) := by
  have length : ops'.length = ops.length := by
    simpa only [List.length_map] using congrArg List.length verbs
  cases ops with
  | nil =>
    obtain rfl := List.length_eq_zero_iff.mp length
    exact sees_throw _
  | cons first more =>
    obtain ⟨first', more', rfl⟩ := List.exists_cons_of_length_eq_add_one length
    have verb : first'.verb = first.verb := (List.cons.inj verbs).1
    rw [execute_cons, execute_cons, verb, length, policies]
    simp only
    split
    · exact sees_throw _
    · exact (sees_enter _).bind fun _ => sees_conduct sees items (by rw [routes])

end Executor

end StoreGateway

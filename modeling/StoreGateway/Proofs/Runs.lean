import StoreGateway.Batch.Executor

/-! How a call or a batch ends from a given state, piece by piece. -/

namespace StoreGateway

variable {ε ε' σ α β : Type}

def ran (c : ExceptT ε (StateM σ) α) (s : σ) : Except ε α × σ := c.run.run s

@[simp]
theorem ran_pure (a : α) (s : σ) : ran (pure a : ExceptT ε (StateM σ) α) s = (.ok a, s) := rfl

@[simp]
theorem ran_throw (e : ε) (s : σ) :
    ran (throw e : ExceptT ε (StateM σ) α) s = (.error e, s) := rfl

theorem ran_bind (c : ExceptT ε (StateM σ) α) (next : α → ExceptT ε (StateM σ) β) (s : σ) :
    ran (c >>= next) s = match ran c s with
      | (.ok a, after) => ran (next a) after
      | (.error e, after) => (.error e, after) := by
  change (ExceptT.bindCont next (ran c s).1).run (ran c s).2 = _
  rcases ran c s with ⟨outcome, after⟩
  cases outcome <;> rfl

theorem ran_bind_ok {c : ExceptT ε (StateM σ) α} {next : α → ExceptT ε (StateM σ) β} {s after : σ}
    {a : α} (first : ran c s = (.ok a, after)) : ran (c >>= next) s = ran (next a) after := by
  rw [ran_bind, first]

theorem ran_bind_error {c : ExceptT ε (StateM σ) α} {next : α → ExceptT ε (StateM σ) β}
    {s after : σ} {e : ε} (first : ran c s = (.error e, after)) :
    ran (c >>= next) s = (.error e, after) := by
  rw [ran_bind, first]

@[simp]
theorem ran_get (s : σ) : ran (get : ExceptT ε (StateM σ) σ) s = (.ok s, s) := rfl

@[simp]
theorem ran_set (s' s : σ) : ran (set s' : ExceptT ε (StateM σ) PUnit) s = (.ok ⟨⟩, s') := rfl

@[simp]
theorem ran_lift (e : Except ε α) (s : σ) :
    ran (liftM e : ExceptT ε (StateM σ) α) s = (e, s) := by
  cases e <;> rfl

theorem ran_tryCatch (c : ExceptT ε (StateM σ) α) (handle : ε → ExceptT ε (StateM σ) α) (s : σ) :
    ran (tryCatch c handle) s = match ran c s with
      | (.ok a, after) => (.ok a, after)
      | (.error e, after) => ran (handle e) after := by
  change StateT.run (match (ran c s).1 with
    | .ok a => pure (.ok a)
    | .error e => handle e) (ran c s).2 = _
  rcases ran c s with ⟨outcome, after⟩
  cases outcome <;> rfl

theorem ran_bind_keeps {P : σ → Prop} {c : ExceptT ε (StateM σ) α}
    {next : α → ExceptT ε (StateM σ) β} {s : σ} (first : P (ran c s).2)
    (rest : ∀ a after, P after → P (ran (next a) after).2) : P (ran (c >>= next) s).2 := by
  rw [ran_bind]
  rcases run : ran c s with ⟨outcome, after⟩
  rw [run] at first
  cases outcome with
  | error e => exact first
  | ok a => exact rest a after first

theorem ran_tryCatch_keeps {P : σ → Prop} {c : ExceptT ε (StateM σ) α}
    {handle : ε → ExceptT ε (StateM σ) α} {s : σ} (first : P (ran c s).2)
    (rest : ∀ e after, P after → P (ran (handle e) after).2) : P (ran (tryCatch c handle) s).2 := by
  rw [ran_tryCatch]
  rcases run : ran c s with ⟨outcome, after⟩
  rw [run] at first
  cases outcome with
  | error e => exact rest e after first
  | ok a => exact first

theorem ran_adapt (f : ε → ε') (c : ExceptT ε (StateM σ) α) (s : σ) :
    ran (ExceptT.adapt f c : ExceptT ε' (StateM σ) α) s =
      ((ran c s).1.mapError f, (ran c s).2) := by
  rfl

theorem ran_ignored (c : ExceptT ε (StateM σ) α) (s : σ) :
    (ran (do let _ ← c : ExceptT ε (StateM σ) Unit) s).2 = (ran c s).2 := by
  rw [ran_bind]
  rcases ran c s with ⟨outcome, after⟩
  cases outcome <;> rfl

namespace Running

theorem ran_call (c : Call σ α) (p : Progress σ) :
    ran (Running.call c) p = (.ok (ran c p.store).1, { p with store := (ran c p.store).2 }) := rfl

theorem ran_perform (c : Call σ α) (p : Progress σ) :
    ran (Running.perform c) p = match ran c p.store with
      | (.ok a, after) => (.ok a, { p with store := after })
      | (.error fault, after) => (.error (.ofStore fault), { p with store := after }) := by
  rw [Running.perform, ran_bind, ran_call]
  rcases ran c p.store with ⟨outcome, after⟩
  cases outcome <;> rfl

theorem ran_enter (state : BatchState) (p : Progress σ) :
    ran (Running.enter state) p = (.ok ⟨⟩, { p with state := state }) := rfl

theorem ran_attempt (r : Running σ α) (p : Progress σ) :
    ran (Running.attempt r) p = (.ok (ran r p).1, (ran r p).2) := by
  rw [Running.attempt, ran_tryCatch, ran_bind]
  rcases ran r p with ⟨outcome, after⟩
  cases outcome <;> rfl

end Running

namespace Executor

open Running

variable (e : Executor σ) (rollback : Bool) {images : Images} {item : Prepared} {key : RecordKey}

theorem prior_known {r : Record} (image : images.of? key = some r) (verb : Verb) :
    e.prior rollback (some images) verb key = pure (some r) := by
  simp only [prior, image]

theorem prior_unknown (image : images.of? key = none) (verb : Verb) :
    e.prior rollback (some images) verb key = throw (missing key) := by
  simp only [prior, image]

variable {rollback} in
theorem prior_unwanted {verb : Verb}
    (unwanted : ¬ (rollback || (verb == .delete && e.options.fields != .idsOnly)) = true)
    (key : RecordKey) : e.prior rollback none verb key = pure none := by
  simp only [prior, if_neg unwanted]

variable {rollback} in
theorem ran_prior_wanted {verb : Verb}
    (wanted : (rollback || (verb == .delete && e.options.fields != .idsOnly)) = true)
    (key : RecordKey) (p : Progress σ) : ran (e.prior rollback none verb key) p =
      (match (ran (e.backend.get e.table key) p.store).1 with
        | .ok r => .ok (some r)
        | .error (.notFound _) => .ok none
        | .error fault => .error (.ofStore fault),
      { p with store := (ran (e.backend.get e.table key) p.store).2 }) := by
  simp only [prior, if_pos wanted]
  rw [ran_bind_ok (ran_call _ _)]
  rcases (ran (e.backend.get e.table key) p.store).1 with (_ | _) | _ <;> rfl

theorem change_upsert (replace : item.verb = .replace) (upserts : e.upsertAllowed = true)
    (prior : Option Record) :
    e.change item key prior = perform (e.backend.upsert e.table key item.record) := by
  simp only [change, replace, if_pos upserts]

theorem change_replace (replace : item.verb = .replace) (strict : ¬ e.upsertAllowed = true)
    (prior : Option Record) :
    e.change item key prior = perform (e.backend.replace e.table key item.record) := by
  simp only [change, replace, if_neg strict]

theorem change_patch (patch : item.verb = .patch) (prior : Option Record) :
    e.change item key prior = perform (e.backend.merge e.table key item.record) := by
  simp only [change, patch]

theorem change_delete (delete : item.verb = .delete) (prior : Option Record) :
    e.change item key prior = (do
      perform (e.backend.delete e.table key)
      return prior.getD key.toRecord) := by
  simp only [change, delete]

/-- A change is one call of the store. -/
theorem change_cases (item : Prepared) (key : RecordKey) (prior : Option Record) :
    e.change item key prior = perform (e.backend.upsert e.table key item.record) ∨
      e.change item key prior = perform (e.backend.replace e.table key item.record) ∨
      e.change item key prior = perform (e.backend.merge e.table key item.record) ∨
      e.change item key prior = (do
        perform (e.backend.delete e.table key)
        return prior.getD key.toRecord) := by
  cases verb : item.verb with
  | replace =>
    by_cases upserts : e.upsertAllowed = true
    · exact .inl (e.change_upsert verb upserts prior)
    · exact .inr (.inl (e.change_replace verb upserts prior))
  | patch => exact .inr (.inr (.inl (e.change_patch verb prior)))
  | delete => exact .inr (.inr (.inr (e.change_delete verb prior)))
  | _ =>
    refine .inr (.inr (.inr ?_))
    simp only [change, verb]

theorem write_create (create : item.verb = .create) : e.write item = .insert item.record := by
  simp only [write, create]

theorem write_upsert (replace : item.verb = .replace) (upserts : e.upsertAllowed = true) :
    e.write item = .upsert item.record := by
  simp only [write, replace, if_pos upserts]

theorem write_replace (replace : item.verb = .replace) (strict : ¬ e.upsertAllowed = true) :
    e.write item = .replace item.record := by
  simp only [write, replace, if_neg strict]

theorem write_patch (patch : item.verb = .patch) : e.write item = .merge item.record := by
  simp only [write, patch]

theorem write_delete (delete : item.verb = .delete) (named : item.key = some key) :
    e.write item = .delete key := by
  simp only [write, delete, named]

variable (images : Option Images)

theorem send_keyless (keyless : item.key = none) (is : item.verb ≠ .create) :
    e.send rollback images item = throw (.missingIdentifier (.item item.index)) := by
  cases verb : item.verb with
  | create => exact absurd verb is
  | _ =>
    simp only [send, verb, Prepared.requireKey, keyless]
    rfl

theorem send_get (get : item.verb = .get) (named : item.key = some key) :
    e.send rollback images item = (do
      return (← perform (e.backend.get e.table key), none)) := by
  simp only [send, get, Prepared.requireKey, named]
  rfl

theorem send_create (create : item.verb = .create) : e.send rollback images item = (do
    let created ← perform (e.backend.insert e.table item.record)
    match e.backend.kind.keyOf created none with
    | .ok key => return (created, if rollback then some ⟨.create, key, none⟩ else none)
    | .error _ => return (created, none)) := by
  rcases item with ⟨index, verb, key, record⟩
  cases create
  rfl

theorem send_keyed (named : item.key = some key)
    (is : item.verb = .replace ∨ item.verb = .patch ∨ item.verb = .delete) :
    e.send rollback images item = (do
      let prior ← e.prior rollback images item.verb key
      let r ← e.change item key prior
      return (r, if rollback && (prior.isSome || (item.verb == .replace && e.upsertAllowed)) then
        some ⟨item.verb, key, prior⟩ else none)) := by
  rcases is with verb | verb | verb <;>
    simp only [send, verb, Prepared.requireKey, named] <;> rfl

end Executor

end StoreGateway

import StoreGateway.Proofs.FaultyStore

/-! Batches that are undone as a whole when one of their items fails. -/

namespace StoreGateway

open Running

variable {σ : Type}

namespace Keeping

def Erodes (k : Keeping σ) (table : String) (before after : σ) : Prop :=
  ∀ key, k.view after table key = none ∨ k.view after table key = k.view before table key

theorem Sets.erodes {k : Keeping σ} {table : String} {key : RecordKey} {before after : σ}
    (sets : k.Sets table key none before after) : k.Erodes table before after := by
  intro other
  rw [sets.2]
  by_cases same : other = key
  · rw [same, Contents.set_here]
    exact .inl rfl
  · exact .inr (Contents.set_other _ _ _ same)

theorem Unchanged.erodes {k : Keeping σ} {before after : σ} (unchanged : k.Unchanged before after)
    (table : String) : k.Erodes table before after := by
  intro key
  rw [unchanged.2]
  exact .inr rfl

/-- What was done is undone by an entry, or there is nothing to undo. -/
def Reverts (k : Keeping σ) (b : Backend σ) (table : String) (verb : Verb) (before after : σ) :
    Option UndoEntry → Prop
  | some u => k.Undoes b table u before after ∧ (verb = .delete → k.Erodes table before after)
  | none => k.Unchanged before after

/-- A record from before a change, or the knowledge that there was none. A record that is known from
earlier on may be gone by now. -/
def Foreseen (k : Keeping σ) (table : String) (key : RecordKey) (s : σ) : Option Record → Prop
  | some r => ∃ q, k.shows key r q ∧ (k.view s table key = none ∨ k.view s table key = some q)
  | none => k.view s table key = none

end Keeping

namespace Executor

variable {b : Backend σ} {k : Keeping σ} {e : Executor (Faulty σ)} {p after : Progress (Faulty σ)}

theorem ran_perform_write {α : Type} {call : Call σ α} {outcome : Except RequestError α}
    (run : ran (perform (Faulty.write call)) p = (outcome, after)) :
    (∃ error, outcome = .error error ∧ after.store.store = p.store.store) ∨
      (∃ a, outcome = .ok a ∧ ran call p.store.store = (.ok a, after.store.store)) ∨
      ∃ error fault, outcome = .error error ∧
        ran call p.store.store = (.error fault, after.store.store) := by
  rw [ran_perform] at run
  rcases Faulty.ran_write call p.store with ⟨fault, failed, same⟩ | ⟨ended, same⟩
  · rcases made : ran (Faulty.write call) p.store with ⟨result, store⟩
    rw [made] at run failed same
    cases failed
    cases run
    exact .inl ⟨_, rfl, same⟩
  · rcases made : ran (Faulty.write call) p.store with ⟨result, store⟩
    rw [made] at run ended same
    cases result with
    | ok a =>
      cases run
      exact .inr (.inl ⟨a, rfl, Prod.ext ended.symm same.symm⟩)
    | error fault =>
      cases run
      exact .inr (.inr ⟨_, fault, rfl, Prod.ext ended.symm same.symm⟩)

theorem ran_write_cases {α : Type} {call : Call σ α} {outcome : Except RequestError α}
    (sound : k.sound p.store.store)
    (refused : ∀ {fault s}, ran call p.store.store = (.error fault, s) →
      k.Unchanged p.store.store s)
    (run : ran (perform (Faulty.write call)) p = (outcome, after)) :
    (∃ error, outcome = .error error ∧ k.Unchanged p.store.store after.store.store) ∨
      ∃ a, outcome = .ok a ∧ ran call p.store.store = (.ok a, after.store.store) := by
  rcases ran_perform_write run with ⟨error, failed, same⟩ | done | ⟨error, fault, failed, made⟩
  · rw [same]
    exact .inl ⟨error, failed, sound, rfl⟩
  · exact .inr done
  · exact .inl ⟨error, failed, refused made⟩

theorem ran_get_same (keeps : b.Keeps k) (table : String) (key : RecordKey) (f : Faulty σ) :
    ran ((Faulty.backend b).get table key) f = ((ran (b.get table key) f.store).1, f) := by
  have same := keeps.get_same table key f.store
  change ((ran (b.get table key) f.store).1, { f with store := (ran (b.get table key) f.store).2 }) = _
  rw [same]

theorem ran_prior (keeps : b.Keeps k) (faulty : e.backend = Faulty.backend b)
    {images : Option Images} {verb : Verb} {key : RecordKey}
    {outcome : Except RequestError (Option Record)} (sound : k.sound p.store.store)
    (known : ∀ found, images = some found → ∀ r, found.of? key = some r →
      k.Foreseen e.table key p.store.store (some r))
    (run : ran (e.prior true images verb key) p = (outcome, after)) :
    after.store = p.store ∧ ∀ prior, outcome = .ok prior →
      k.Foreseen e.table key p.store.store prior ∧
      (images = none → prior ≠ none → k.view p.store.store e.table key ≠ none) := by
  cases images with
  | some found =>
    cases image : found.of? key with
    | none =>
      rw [e.prior_unknown true image] at run
      cases run
      exact ⟨rfl, nofun⟩
    | some r =>
      rw [e.prior_known true image] at run
      cases run
      refine ⟨rfl, fun prior same => ?_⟩
      cases same
      exact ⟨known found rfl r image, nofun⟩
  | none =>
    rw [e.ran_prior_wanted (Bool.true_or _), faulty, ran_get_same keeps] at run
    cases run
    refine ⟨rfl, fun prior same => ?_⟩
    cases found : (ran (b.get e.table key) p.store.store).1 with
    | ok r =>
      rw [found] at same
      cases same
      obtain ⟨q, present, shown⟩ := keeps.get_ok sound found
      refine ⟨⟨q, shown, .inr present⟩, fun _ _ => ?_⟩
      rw [present]
      exact Option.some_ne_none q
    | error fault =>
      rw [found] at same
      cases fault with
      | notFound what =>
        cases same
        exact ⟨keeps.get_missing sound found, fun _ some => absurd rfl some⟩
      | _ => cases same

def entry (e : Executor σ) (verb : Verb) (key : RecordKey) (prior : Option Record) :
    Option UndoEntry :=
  if prior.isSome || (verb == .replace && e.upsertAllowed) then some ⟨verb, key, prior⟩ else none

theorem present_of_foreseen {key : RecordKey} {prior : Option Record} {s : σ}
    (foreseen : k.Foreseen e.table key s prior) (present : k.view s e.table key ≠ none) :
    ∃ r q, prior = some r ∧ k.shows key r q ∧ k.view s e.table key = some q := by
  cases prior with
  | none => exact absurd foreseen present
  | some r =>
    obtain ⟨q, shown, gone | here⟩ := foreseen
    · exact absurd gone present
    · exact ⟨r, q, rfl, shown, here⟩

theorem reverts_changed (keeps : b.Keeps k) {verb : Verb} {key : RecordKey} {prior : Option Record}
    {s s' : σ} {q' : Record} (is : verb = .replace ∨ verb = .patch) (sound : k.sound s)
    (foreseen : k.Foreseen e.table key s prior) (present : k.view s e.table key ≠ none)
    (sets : k.Sets e.table key (some q') s s') :
    k.Reverts b e.table verb s s' (e.entry verb key prior) := by
  obtain ⟨r, q, rfl, shown, here⟩ := present_of_foreseen foreseen present
  have undoes : k.Undoes b e.table ⟨verb, key, some r⟩ s s' :=
    Keeping.undoes_changed keeps is rfl sound here shown sets
  refine ⟨undoes, fun delete => ?_⟩
  rcases is with rfl | rfl <;> cases delete

theorem reverts_change (keeps : b.Keeps k) (faulty : e.backend = Faulty.backend b)
    {item : Prepared} {key : RecordKey} {prior : Option Record}
    {outcome : Except RequestError Record} (sound : k.sound p.store.store)
    (is : item.verb = .replace ∨ item.verb = .patch ∨ item.verb = .delete)
    (fits : k.fits item.record) (returns : item.verb = .delete → k.returns key)
    (foreseen : k.Foreseen e.table key p.store.store prior)
    (present : item.verb = .replace → prior ≠ none → k.view p.store.store e.table key ≠ none)
    (run : ran (e.change item key prior) p = (outcome, after)) :
    match outcome with
    | .ok _ =>
      k.Reverts b e.table item.verb p.store.store after.store.store (e.entry item.verb key prior)
    | .error _ => k.Unchanged p.store.store after.store.store := by
  rcases is with verb | verb | verb
  · -- a replacement may be the first writing of its key, if upserts are allowed
    by_cases upsert : e.upsertAllowed = true
    · rw [e.change_upsert verb upsert, faulty] at run
      rcases ran_write_cases sound (keeps.upsert_error sound fits) run with
        ⟨error, rfl, same⟩ | ⟨r, rfl, made⟩
      · exact same
      · obtain ⟨q', sets⟩ := keeps.upsert_ok sound fits made
        cases prior with
        | none =>
          have entry : e.entry item.verb key none = some ⟨.replace, key, none⟩ := by
            rw [Executor.entry, verb, upsert]
            rfl
          rw [entry]
          refine ⟨Keeping.undoes_new keeps (.inr rfl) rfl foreseen sets, fun delete => ?_⟩
          rw [verb] at delete
          cases delete
        | some r =>
          exact reverts_changed keeps (.inl verb) sound foreseen (present verb nofun) sets
    · rw [e.change_replace verb upsert, faulty] at run
      rcases ran_write_cases sound (keeps.replace_error sound fits) run with
        ⟨error, rfl, same⟩ | ⟨r, rfl, made⟩
      · exact same
      · obtain ⟨here, q', sets⟩ := keeps.replace_ok sound fits made
        exact reverts_changed keeps (.inl verb) sound foreseen here sets
  · rw [e.change_patch verb, faulty] at run
    rcases ran_write_cases sound (keeps.merge_error sound fits) run with
      ⟨error, rfl, same⟩ | ⟨r, rfl, made⟩
    · exact same
    · obtain ⟨here, q', sets⟩ := keeps.merge_ok sound fits made
      exact reverts_changed keeps (.inr verb) sound foreseen here sets
  · rw [e.change_delete verb, faulty] at run
    rcases made : ran (perform ((Faulty.backend b).delete e.table key)) p with ⟨result, p'⟩
    rw [ran_bind, made] at run
    rcases ran_write_cases sound (keeps.delete_error sound) made with
      ⟨error, rfl, same⟩ | ⟨done, rfl, deleted⟩
    · cases run
      exact same
    · cases run
      obtain ⟨here, sets⟩ := keeps.delete_ok sound deleted
      obtain ⟨r, q, rfl, shown, was⟩ := present_of_foreseen foreseen here
      rw [verb]
      exact ⟨Keeping.undoes_deleted keeps sound was shown (returns verb) sets, fun _ => sets.erodes⟩

theorem reverts_create (keeps : b.Keeps k) (faulty : e.backend = Faulty.backend b)
    {images : Option Images} {item : Prepared} {outcome : Except RequestError (Record × Option UndoEntry)}
    (sound : k.sound p.store.store) (create : item.verb = .create) (fits : k.fits item.record)
    (run : ran (e.send true images item) p = (outcome, after)) :
    match outcome with
    | .ok (_, undo) => k.Reverts b e.table item.verb p.store.store after.store.store undo
    | .error _ => k.Unchanged p.store.store after.store.store := by
  rw [e.send_create true images create, faulty] at run
  rcases made : ran (perform ((Faulty.backend b).insert e.table item.record)) p with ⟨result, p'⟩
  rw [ran_bind, made] at run
  rcases ran_write_cases sound (keeps.insert_error sound fits) made with
    ⟨error, rfl, same⟩ | ⟨r, rfl, put⟩
  · cases run
    exact same
  · obtain ⟨key, q, keyed, absent, sets⟩ := keeps.insert_ok sound fits put
    have keyed' : (Faulty.backend b).kind.keyOf r none = .ok key := keyed
    simp only [keyed'] at run
    cases run
    refine ⟨Keeping.undoes_new keeps (.inl rfl) rfl absent sets, fun delete => ?_⟩
    rw [create] at delete
    cases delete

theorem send_change (e : Executor σ) (images : Option Images) {item : Prepared} {key : RecordKey}
    (named : item.key = some key)
    (is : item.verb = .replace ∨ item.verb = .patch ∨ item.verb = .delete) :
    e.send true images item = (do
      let prior ← e.prior true images item.verb key
      let r ← e.change item key prior
      return (r, e.entry item.verb key prior)) :=
  e.send_keyed true images named is

theorem reverts_send_keyed (keeps : b.Keeps k) (faulty : e.backend = Faulty.backend b)
    {images : Option Images} {item : Prepared} {key : RecordKey}
    {outcome : Except RequestError (Record × Option UndoEntry)} (sound : k.sound p.store.store)
    (named : item.key = some key)
    (is : item.verb = .replace ∨ item.verb = .patch ∨ item.verb = .delete)
    (fits : k.fits item.record) (returns : item.verb = .delete → k.returns key)
    (known : ∀ found, images = some found → item.verb = .delete ∧
      ∀ r, found.of? key = some r → k.Foreseen e.table key p.store.store (some r))
    (run : ran (e.send true images item) p = (outcome, after)) :
    match outcome with
    | .ok (_, undo) => k.Reverts b e.table item.verb p.store.store after.store.store undo
    | .error _ => k.Unchanged p.store.store after.store.store := by
  rw [send_change e images named is] at run
  rcases before : ran (e.prior true images item.verb key) p with ⟨result, p'⟩
  have told := ran_prior keeps faulty sound (fun found same => (known found same).2) before
  cases result with
  | error error =>
    rw [ran_bind_error before] at run
    cases run
    rw [told.1]
    exact ⟨sound, rfl⟩
  | ok prior =>
    rw [ran_bind_ok before] at run
    have foreseen := told.2 prior rfl
    rw [← told.1] at sound foreseen ⊢
    have present : item.verb = .replace → prior ≠ none → k.view p'.store.store e.table key ≠ none := by
      intro verb
      refine foreseen.2 ?_
      cases images with
      | none => rfl
      | some found =>
        have delete := (known found rfl).1
        rw [verb] at delete
        cases delete
    rcases changed : ran (e.change item key prior) p' with ⟨result, p''⟩
    have reverts := reverts_change keeps faulty sound is fits returns foreseen.1 present changed
    cases result with
    | ok r =>
      rw [ran_bind_ok changed] at run
      cases run
      exact reverts
    | error error =>
      rw [ran_bind_error changed] at run
      cases run
      exact reverts

/-- What sending an item does is undone by the entry that comes with its record. -/
theorem reverts_send (keeps : b.Keeps k) (faulty : e.backend = Faulty.backend b)
    {images : Option Images} {item : Prepared} {outcome : Except RequestError (Record × Option UndoEntry)}
    (sound : k.sound p.store.store) (write : item.verb.isWrite = true) (fits : k.fits item.record)
    (returns : item.verb = .delete → ∀ key, item.key = some key → k.returns key)
    (known : ∀ found, images = some found → item.verb = .delete ∧
      ∀ key, item.key = some key → ∀ r, found.of? key = some r →
        k.Foreseen e.table key p.store.store (some r))
    (run : ran (e.send true images item) p = (outcome, after)) :
    match outcome with
    | .ok (_, undo) => k.Reverts b e.table item.verb p.store.store after.store.store undo
    | .error _ => k.Unchanged p.store.store after.store.store := by
  by_cases create : item.verb = .create
  · exact reverts_create keeps faulty sound create fits run
  · have is : item.verb = .replace ∨ item.verb = .patch ∨ item.verb = .delete := by
      cases verb : item.verb <;> simp_all [Verb.isWrite]
    cases named : item.key with
    | none =>
      rw [e.send_keyless true images named create] at run
      cases run
      exact ⟨sound, rfl⟩
    | some key =>
      exact reverts_send_keyed keeps faulty sound named is fits (fun delete => returns delete key named)
        (fun found same => ⟨(known found same).1, (known found same).2 key named⟩) run

end Executor

end StoreGateway

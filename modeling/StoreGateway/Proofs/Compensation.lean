import StoreGateway.Proofs.BatchSequences
import StoreGateway.Proofs.Continuing
import StoreGateway.Proofs.Identities
import StoreGateway.Proofs.Traces
import StoreGateway.Proofs.Views

/-!
What a batch with rollback asks a store for, if it is not handed over as a whole. Main statement: the
calls for the items up to the first that fails are followed by one for each change that was made, which
undoes it, newest first, and the batch ends with the error of that item.
-/

namespace StoreGateway

open Running

variable {σ : Type}

/-- No record with the key is there to be changed. -/
structure Backend.Lacks (b : Backend σ) (table : String) (key : RecordKey) (s : σ) : Prop where
  replace : ∀ r shown s', ran (b.replace table key r) s ≠ (.ok shown, s')
  merge : ∀ r shown s', ran (b.merge table key r) s ≠ (.ok shown, s')
  delete : ∀ s', ran (b.delete table key) s ≠ (.ok (), s')

/-- What is relied on of the answers of a store, which are arbitrary otherwise. -/
structure Backend.Answering (b : Backend σ) : Prop where
  inserted : ∀ {table r s created s'}, ran (b.insert table r) s = (.ok created, s') →
    ∃ key, b.kind.keyOf created none = .ok key
  absent : ∀ {table key s what s'}, ran (b.get table key) s = (.error (.notFound what), s') →
    b.Lacks table key s'

/-- Whether the item changes a record that it addresses. -/
def Prepared.Changes (item : Prepared) : Prop :=
  item.verb = .replace ∨ item.verb = .patch ∨ item.verb = .delete

namespace Executor

/-- The executor on a store that writes its calls down. -/
def traced (e : Executor σ) : Executor (Traced σ) :=
  ⟨Traced.backend e.backend, e.table, e.options, e.upsertAllowed, e.maxBatch, e.maxIds⟩

/-- How it is found out what a record is before a change. -/
inductive Image (e : Executor σ) (key : RecordKey) :
    Option Images → List Event → Option Record → Prop
  | ahead {found : Images} {prior : Record} (known : found.of? key = some prior) :
      Image e key (some found) [] (some prior)
  | got (prior : Record) : Image e key none [⟨.get e.table key, .ok (.record prior)⟩] (some prior)
  | absent (what : String) : Image e key none [⟨.get e.table key, .error (.notFound what)⟩] none

/-- How it is not found out. -/
inductive Unimaged (e : Executor σ) (key : RecordKey) :
    Option Images → List Event → RequestError → Prop
  | ahead {found : Images} (unknown : found.of? key = none) :
      Unimaged e key (some found) [] (missing key)
  | asked {fault : StoreFault} (other : ∀ what, fault ≠ .notFound what) :
      Unimaged e key none [⟨.get e.table key, .error fault⟩] (.ofStore fault)

/-- The call that changes the record of an item. -/
def changing (e : Executor σ) (item : Prepared) (key : RecordKey) : Asked :=
  match item.verb with
  | .replace =>
    if e.upsertAllowed then .upsert e.table key item.record else .replace e.table key item.record
  | .patch => .merge e.table key item.record
  | _ => .delete e.table key

/-- The calls for an item that succeeds, and the call that undoes what it did. -/
inductive Done (e : Executor σ) (images : Option Images) (item : Prepared) :
    List Event → Option Asked → Prop
  | read {key : RecordKey} (verb : item.verb = .get) (named : item.key = some key) (r : Record) :
      Done e images item [⟨.get e.table key, .ok (.record r)⟩] none
  | created {key : RecordKey} {r : Record} (verb : item.verb = .create)
      (keyed : e.backend.kind.keyOf r none = .ok key) :
      Done e images item [⟨.insert e.table item.record, .ok (.record r)⟩]
        (some (.delete e.table key))
  | rewritten {key : RecordKey} {looks : List Event} {prior : Record}
      (verb : item.verb = .replace ∨ item.verb = .patch) (named : item.key = some key)
      (image : e.Image key images looks (some prior)) (answer : Answered) :
      Done e images item (looks ++ [⟨e.changing item key, .ok answer⟩])
        (some (.upsert e.table key prior))
  | added {key : RecordKey} {looks : List Event} (verb : item.verb = .replace)
      (upserts : e.upsertAllowed = true) (named : item.key = some key)
      (image : e.Image key images looks none) (answer : Answered) :
      Done e images item (looks ++ [⟨e.changing item key, .ok answer⟩])
        (some (.delete e.table key))
  | removed {key : RecordKey} {looks : List Event} {prior : Record} (verb : item.verb = .delete)
      (named : item.key = some key) (image : e.Image key images looks (some prior))
      (answer : Answered) :
      Done e images item (looks ++ [⟨e.changing item key, .ok answer⟩])
        (some (.insert e.table prior))

/-- The calls for an item that fails, and its error. -/
inductive Fails (e : Executor σ) (images : Option Images) :
    Except RequestError Prepared → List Event → RequestError → Prop
  | unprepared (error : RequestError) : Fails e images (.error error) [] error
  | keyless {item : Prepared} (verb : item.verb ≠ .create) (unnamed : item.key = none) :
      Fails e images (.ok item) [] (.missingIdentifier (.item item.index))
  | unread {item : Prepared} {key : RecordKey} (verb : item.verb = .get)
      (named : item.key = some key) (fault : StoreFault) :
      Fails e images (.ok item) [⟨.get e.table key, .error fault⟩] (.ofStore fault)
  | uncreated {item : Prepared} (verb : item.verb = .create) (fault : StoreFault) :
      Fails e images (.ok item) [⟨.insert e.table item.record, .error fault⟩] (.ofStore fault)
  | unimaged {item : Prepared} {key : RecordKey} {looks : List Event} {error : RequestError}
      (changes : item.Changes) (named : item.key = some key)
      (unimaged : e.Unimaged key images looks error) : Fails e images (.ok item) looks error
  | unchanged {item : Prepared} {key : RecordKey} {looks : List Event} {prior : Option Record}
      (changes : item.Changes) (named : item.key = some key)
      (image : e.Image key images looks prior) (fault : StoreFault) :
      Fails e images (.ok item) (looks ++ [⟨e.changing item key, .error fault⟩]) (.ofStore fault)

/-- How an item ends, with the entry for undoing it, and the calls for it. -/
inductive Acts (e : Executor σ) (images : Option Images) (item : Except RequestError Prepared) :
    Except RequestError (Record × Option UndoEntry) → List Event → Prop
  | done {prepared : Prepared} {r : Record} {undo : Option UndoEntry} {its : List Event}
      (is : item = .ok prepared) (needed : ∀ u, undo = some u → u.isNeeded = true)
      (done : e.Done images prepared its (undo.map (UndoEntry.asked e.table))) :
      Acts e images item (.ok (r, undo)) its
  | failed {error : RequestError} {its : List Event} (fails : e.Fails images item its error) :
      Acts e images item (.error error) its

variable {e : Executor σ} {images : Option Images} {item : Prepared} {key : RecordKey}

theorem prior_traced (answering : e.backend.Answering) (images : Option Images) (verb : Verb)
    (key : RecordKey) (p : Progress (Traced σ)) :
    (∃ prior looks s, ran (e.traced.prior true images verb key) p = (.ok prior, p.noting s looks) ∧
        e.Image key images looks prior ∧ (prior = none → e.backend.Lacks e.table key s)) ∨
      ∃ error looks s, ran (e.traced.prior true images verb key) p =
        (.error error, p.noting s looks) ∧ e.Unimaged key images looks error := by
  cases images with
  | some found =>
    cases known : found.of? key with
    | some prior =>
      refine .inl ⟨some prior, [], p.store.store, ?_, .ahead known, fun same => by cases same⟩
      rw [e.traced.prior_known true known, p.noting_nothing]
      rfl
    | none =>
      refine .inr ⟨missing key, [], p.store.store, ?_, .ahead known⟩
      rw [e.traced.prior_unknown true known, p.noting_nothing]
      rfl
  | none =>
    rcases got : ran (e.backend.get e.table key) p.store.store with ⟨outcome, s⟩
    have called : ran (Running.call (e.traced.backend.get e.traced.table key)) p =
        (.ok outcome, p.noting s [⟨.get e.table key, outcome.map .record⟩]) := call_note got
    unfold prior
    simp only [Bool.true_or, if_true]
    rw [ran_bind_ok called]
    cases outcome with
    | ok prior => exact .inl ⟨some prior, _, s, rfl, .got prior, fun same => by cases same⟩
    | error fault =>
      cases fault with
      | notFound what => exact .inl ⟨none, _, s, rfl, .absent what, fun _ => answering.absent got⟩
      | _ => exact .inr ⟨_, _, s, rfl, .asked fun what same => by cases same⟩

theorem change_traced (changes : item.Changes) (key : RecordKey) (prior : Option Record)
    (p : Progress (Traced σ)) :
    (∃ r answer s, ran (e.traced.change item key prior) p =
        (.ok r, p.noting s [⟨e.changing item key, .ok answer⟩]) ∧
        (e.backend.Lacks e.table key p.store.store →
          item.verb = .replace ∧ e.upsertAllowed = true)) ∨
      ∃ fault s, ran (e.traced.change item key prior) p =
        (.error (.ofStore fault), p.noting s [⟨e.changing item key, .error fault⟩]) := by
  rcases changes with verb | verb | verb
  · by_cases upserts : e.upsertAllowed = true
    · have asked : e.changing item key = .upsert e.table key item.record := by
        simp only [changing, verb, if_pos upserts]
      rw [asked, e.traced.change_upsert verb upserts]
      rcases perform_note_cases (.upsert e.table key item.record) .record
        (e.backend.upsert e.table key item.record) p with ⟨r, s, -, made⟩ | ⟨fault, s, made⟩
      · exact .inl ⟨r, .record r, s, made, fun _ => ⟨verb, upserts⟩⟩
      · exact .inr ⟨fault, s, made⟩
    · have asked : e.changing item key = .replace e.table key item.record := by
        simp only [changing, verb, if_neg upserts]
      rw [asked, e.traced.change_replace verb upserts]
      rcases perform_note_cases (.replace e.table key item.record) .record
        (e.backend.replace e.table key item.record) p with ⟨r, s, done, made⟩ | ⟨fault, s, made⟩
      · exact .inl ⟨r, .record r, s, made, fun lacks => absurd done (lacks.replace _ r s)⟩
      · exact .inr ⟨fault, s, made⟩
  · have asked : e.changing item key = .merge e.table key item.record := by
      simp only [changing, verb]
    rw [asked, e.traced.change_patch verb]
    rcases perform_note_cases (.merge e.table key item.record) .record
      (e.backend.merge e.table key item.record) p with ⟨r, s, done, made⟩ | ⟨fault, s, made⟩
    · exact .inl ⟨r, .record r, s, made, fun lacks => absurd done (lacks.merge _ r s)⟩
    · exact .inr ⟨fault, s, made⟩
  · have asked : e.changing item key = .delete e.table key := by
      simp only [changing, verb]
    rw [asked, e.traced.change_delete verb]
    rcases perform_note_cases (.delete e.table key) (fun _ => .done)
      (e.backend.delete e.table key) p with ⟨gone, s, done, made⟩ | ⟨fault, s, made⟩
    · exact .inl ⟨_, .done, s, ran_bind_ok made, fun lacks => absurd done (lacks.delete s)⟩
    · exact .inr ⟨fault, s, ran_bind_error made⟩

theorem done_changed (changes : item.Changes) (named : item.key = some key) {looks : List Event}
    {prior : Option Record} (image : e.Image key images looks prior) (answer : Answered)
    (creates : prior = none → item.verb = .replace ∧ e.upsertAllowed = true) :
    let undo := e.traced.entry item.verb key prior
    (∀ u, undo = some u → u.isNeeded = true) ∧
      e.Done images item (looks ++ [⟨e.changing item key, .ok answer⟩])
        (undo.map (UndoEntry.asked e.table)) := by
  have upserting : e.traced.upsertAllowed = e.upsertAllowed := rfl
  cases prior with
  | some prior =>
    have logged : e.traced.entry item.verb key (some prior) = some ⟨item.verb, key, some prior⟩ := rfl
    rw [logged]
    refine ⟨fun u same => ?_, ?_⟩
    · cases same
      rcases changes with verb | verb | verb <;> rw [verb] <;> rfl
    · rcases changes with verb | verb | verb
      · have asked : UndoEntry.asked e.table ⟨item.verb, key, some prior⟩ =
            .upsert e.table key prior := by rw [verb]; rfl
        rw [Option.map_some, asked]
        exact .rewritten (.inl verb) named image answer
      · have asked : UndoEntry.asked e.table ⟨item.verb, key, some prior⟩ =
            .upsert e.table key prior := by rw [verb]; rfl
        rw [Option.map_some, asked]
        exact .rewritten (.inr verb) named image answer
      · have asked : UndoEntry.asked e.table ⟨item.verb, key, some prior⟩ =
            .insert e.table prior := by rw [verb]; rfl
        rw [Option.map_some, asked]
        exact .removed verb named image answer
  | none =>
    obtain ⟨verb, upserts⟩ := creates rfl
    have logged : e.traced.entry item.verb key none = some ⟨.replace, key, none⟩ := by
      rw [entry, upserting, verb, upserts]
      rfl
    rw [logged]
    refine ⟨fun u same => ?_, .added verb upserts named image answer⟩
    cases same
    rfl

theorem acts_change (answering : e.backend.Answering) (changes : item.Changes)
    (named : item.key = some key) (p : Progress (Traced σ)) :
    ∃ outcome its s, ran (e.traced.send true images item) p = (outcome, p.noting s its) ∧
      e.Acts images (.ok item) outcome its := by
  rw [send_change e.traced images named changes]
  rcases prior_traced answering images item.verb key p with
    ⟨prior, looks, s, looked, image, lacks⟩ | ⟨error, looks, s, looked, unimaged⟩
  · rw [ran_bind_ok looked]
    rcases change_traced changes key prior (p.noting s looks) with
      ⟨r, answer, s', changed, creates⟩ | ⟨fault, s', changed⟩
    · obtain ⟨needed, done⟩ := done_changed changes named image answer
        fun absent => creates (lacks absent)
      refine ⟨.ok (r, e.traced.entry item.verb key prior), _, s', ?_, .done rfl needed done⟩
      rw [ran_bind_ok changed, p.noting_noting]
      rfl
    · refine ⟨_, _, s', ?_, .failed (.unchanged changes named image fault)⟩
      rw [ran_bind_error changed, p.noting_noting]
  · exact ⟨_, looks, s, ran_bind_error looked, .failed (.unimaged changes named unimaged)⟩

theorem acts_create (answering : e.backend.Answering) (create : item.verb = .create)
    (p : Progress (Traced σ)) : ∃ outcome its s, ran (e.traced.send true images item) p =
      (outcome, p.noting s its) ∧ e.Acts images (.ok item) outcome its := by
  rw [e.traced.send_create true images create]
  rcases perform_note_cases (.insert e.table item.record) .record
    (e.backend.insert e.table item.record) p with ⟨r, s, done, made⟩ | ⟨fault, s, made⟩
  · obtain ⟨key, keyed⟩ := answering.inserted done
    have keyed' : e.traced.backend.kind.keyOf r none = .ok key := keyed
    refine ⟨.ok (r, some ⟨.create, key, none⟩), _, s, ?_, .done rfl (fun u same => ?_)
      (.created create keyed)⟩
    · refine (ran_bind_ok made).trans ?_
      simp only [keyed']
      rfl
    · cases same
      rfl
  · exact ⟨_, _, s, ran_bind_error made, .failed (.uncreated create fault)⟩

theorem acts_get (get : item.verb = .get) (named : item.key = some key) (p : Progress (Traced σ)) :
    ∃ outcome its s, ran (e.traced.send true images item) p = (outcome, p.noting s its) ∧
      e.Acts images (.ok item) outcome its := by
  rw [e.traced.send_get true images get named]
  rcases perform_note_cases (.get e.table key) .record (e.backend.get e.table key) p with
    ⟨r, s, -, made⟩ | ⟨fault, s, made⟩
  · exact ⟨_, _, s, ran_bind_ok made, .done rfl (fun u same => by cases same) (.read get named r)⟩
  · exact ⟨_, _, s, ran_bind_error made, .failed (.unread get named fault)⟩

theorem acts_send (answering : e.backend.Answering) (images : Option Images) (item : Prepared)
    (p : Progress (Traced σ)) : ∃ outcome its s, ran (e.traced.send true images item) p =
      (outcome, p.noting s its) ∧ e.Acts images (.ok item) outcome its := by
  by_cases create : item.verb = .create
  · exact acts_create answering create p
  · cases named : item.key with
    | none =>
      rw [e.traced.send_keyless true images named create]
      refine ⟨_, [], p.store.store, ?_, .failed (.keyless create named)⟩
      rw [p.noting_nothing]
      rfl
    | some key =>
      cases verb : item.verb with
      | create => exact absurd verb create
      | get => exact acts_get verb named p
      | replace => exact acts_change answering (.inl verb) named p
      | patch => exact acts_change answering (.inr (.inl verb)) named p
      | delete => exact acts_change answering (.inr (.inr verb)) named p

/-- An item that succeeded, with the calls for it and the call that undoes what it did. -/
structure Passed (e : Executor σ) (images : Option Images) where
  index : Nat
  item : Prepared
  events : List Event
  inverse : Option Asked
  done : e.Done images item events inverse

def Passed.sent (step : e.Passed images) : Nat × Except RequestError Prepared :=
  (step.index, .ok step.item)

theorem Passed.filterMap_inverse (step : e.Passed images) (steps : List (e.Passed images)) :
    (step :: steps).filterMap Passed.inverse =
      step.inverse.toList ++ steps.filterMap Passed.inverse := by
  rw [List.filterMap_cons]
  cases step.inverse <;> rfl

/-- How the items of a batch end that are sent until one fails, with the calls for them. -/
inductive Sends (e : Executor σ) (images : Option Images)
    (items : List (Nat × Except RequestError Prepared)) :
    List (e.Passed images) → Option RequestError → List Event → Prop
  | all {steps : List (e.Passed images)} (are : items = steps.map Passed.sent) :
      Sends e images items steps none (steps.flatMap Passed.events)
  | upTo {steps : List (e.Passed images)} {index : Nat} {item : Except RequestError Prepared}
      {rest : List (Nat × Except RequestError Prepared)} {its : List Event} {error : RequestError}
      (are : items = steps.map Passed.sent ++ (index, item) :: rest)
      (fails : e.Fails images item its error) :
      Sends e images items steps (some error) (steps.flatMap Passed.events ++ its)

theorem Sends.cons {items : List (Nat × Except RequestError Prepared)}
    {steps : List (e.Passed images)} {failure : Option RequestError} {its : List Event}
    (sends : e.Sends images items steps failure its) (step : e.Passed images) :
    e.Sends images (step.sent :: items) (step :: steps) failure (step.events ++ its) := by
  cases sends with
  | all are =>
    rw [are, ← List.flatMap_cons]
    exact .all rfl
  | upTo are fails =>
    rw [are, ← List.append_assoc, ← List.flatMap_cons]
    exact .upTo rfl fails

/-- Whether the log has an entry for each change that is to be undone, the newest first. -/
structure Logged (table : String) (log : UndoLog) (inverses : List Asked) : Prop where
  needed : ∀ u ∈ log.entries, u.isNeeded = true
  asked : log.entries.map (UndoEntry.asked table) = inverses.reverse

theorem Logged.taken {run : Run} {table : String} {inverses : List Asked}
    (logged : Logged table run.log inverses) (e : Executor (Traced σ)) (index : Nat) (r : Record)
    {undo : Option UndoEntry} (needed : ∀ u, undo = some u → u.isNeeded = true) :
    Logged table (e.taken run index r undo).log
      (inverses ++ (undo.map (UndoEntry.asked table)).toList) := by
  cases undo with
  | none =>
    rw [Option.map_none, Option.toList_none, List.append_nil]
    exact logged
  | some u =>
    refine ⟨fun v member => ?_, ?_⟩
    · rcases List.mem_cons.mp member with rfl | member
      · exact needed v rfl
      · exact logged.needed v member
    · rw [List.reverse_append, ← logged.asked]
      rfl

/-- The log grows by what the items that succeed are to be undone by. -/
theorem sends_sendUntil (answering : e.backend.Answering) (images : Option Images)
    (items : List (Nat × Except RequestError Prepared)) (run : Run) {inverses : List Asked}
    (logged : Logged e.table run.log inverses) (p : Progress (Traced σ)) :
    ∃ run' failure its s steps, ran (e.traced.sendUntil images run items) p =
        (.ok (run', failure), p.noting s its) ∧
      e.Sends images items steps failure its ∧
      Logged e.table run'.log (inverses ++ steps.filterMap Passed.inverse) := by
  -- the induction is on the items, from any run and any progress
  induction items generalizing run inverses p with
  | nil =>
    refine ⟨run, none, [], p.store.store, [], ?_, .all rfl, ?_⟩
    · rw [p.noting_nothing]
      rfl
    · rw [List.filterMap_nil, List.append_nil]
      exact logged
  | cons first rest ih =>
    obtain ⟨index, item⟩ := first
    cases item with
    | error error =>
      refine ⟨run, some error, [], p.store.store, [], ?_, .upTo rfl (.unprepared error), ?_⟩
      · rw [p.noting_nothing]
        rfl
      · rw [List.filterMap_nil, List.append_nil]
        exact logged
    | ok item =>
      obtain ⟨outcome, its, s, sent, ends⟩ := acts_send answering images item p
      have answered : ran (e.traced.answer images (.ok item)) p = (.ok outcome, p.noting s its) := by
        rw [answer, ran_attempt, sent]
      rw [sendUntil, ran_bind_ok answered]
      cases ends with
      | failed fails =>
        refine ⟨run, _, its, s, [], rfl, .upTo rfl fails, ?_⟩
        rw [List.filterMap_nil, List.append_nil]
        exact logged
      | @done prepared r undo its is needed done =>
        cases is
        let step : e.Passed images := ⟨index, item, its, _, done⟩
        obtain ⟨run', failure, more, s', steps, ended, sends, others⟩ :=
          ih (e.traced.taken run index r undo) (logged.taken e.traced index r needed) (p.noting s its)
        refine ⟨run', failure, _, s', step :: steps, ended.trans ?_, sends.cons step, ?_⟩
        · rw [p.noting_noting]
        · rw [List.append_assoc] at others
          rw [step.filterMap_inverse]
          exact others

/-- The queries for records that are looked up before the items are taken up, and what they find. -/
inductive Queried (table : String) :
    Images → List Event → Except RequestError Images → Prop
  | done (found : Images) : Queried table found [] (.ok found)
  | failed (found : Images) (q : NativeQuery) (fault : StoreFault) :
      Queried table found [⟨.query table q, .error fault⟩] (.error (.ofStore fault))
  | more {found : Images} {records : List Record} {looks : List Event}
      {outcome : Except RequestError Images} (q : NativeQuery)
      (rest : Queried table (addImages found records) looks outcome) :
      Queried table found (⟨.query table q, .ok (.records records)⟩ :: looks) outcome

theorem queried_queryAll (texts : List String) (found : Images) (p : Progress (Traced σ)) :
    ∃ outcome looks s, ran (e.traced.queryAll found texts) p = (outcome, p.noting s looks) ∧
      Queried e.table found looks outcome := by
  induction texts generalizing found p with
  | nil =>
    refine ⟨_, [], p.store.store, ?_, .done found⟩
    rw [p.noting_nothing]
    rfl
  | cons text rest ih =>
    rw [queryAll]
    rcases perform_note_cases (.query e.table (.ofText text)) .records
      (e.backend.query e.table (.ofText text)) p with ⟨records, s, -, made⟩ | ⟨fault, s, made⟩
    · obtain ⟨outcome, looks, s', others, looked⟩ :=
        ih (addImages found records)
          (p.noting s [⟨.query e.table (.ofText text), .ok (.records records)⟩])
      refine ⟨outcome, _, s', (ran_bind_ok made).trans ?_,
        .more (.ofText text) looked⟩
      rw [others, p.noting_noting]
      rfl
    · exact ⟨_, _, s, ran_bind_error made, .failed found _ fault⟩

/-- What a read is answered with from records that were looked up. -/
def answerFrom (found : Images) (item : Prepared) : Except RequestError Record :=
  item.requireKey.bind fun key =>
    match found.of? key with
    | some r => .ok r
    | none => .error (missing key)

/-- The error of the first read that is not answered. -/
def unanswered (found : Images) : List Prepared → Option RequestError
  | [] => none
  | item :: rest =>
    match answerFrom found item with
    | .ok _ => unanswered found rest
    | .error error => some error

theorem answerAll_cons (e : Executor σ) (policy : Policy) (found : Images) (run : Run)
    (item : Prepared) (rest : List Prepared) :
    e.answerAll policy found run (item :: rest) = (do
      let run ← e.settle policy run item.index ((answerFrom found item).map fun r => (r, none))
      e.answerAll policy found run rest) := by
  rw [answerAll]
  refine congrArg (fun outcome => e.settle policy run item.index outcome >>= fun run =>
    e.answerAll policy found run rest) ?_
  rw [answerFrom]
  cases item.requireKey with
  | error error => rfl
  | ok key =>
    simp only [bind, Except.bind]
    cases found.of? key <;> rfl

/-- What is known of records before the items of a batch are taken up, and the queries for it. -/
inductive Ahead (e : Executor σ) : Route → List Event → Option Images → Prop
  | nothing : Ahead e .oneByOne [] none
  | images {partition : String} {prepared : List Prepared} {looks : List Event} {found : Images}
      (looked : Queried e.table [] looks (.ok found)) :
      Ahead e (.deletes partition prepared) looks (some found)

/-- How a batch with rollback ends that is not handed over as a whole, and the calls that it makes.
It may give up before its items are taken up. Reads that are answered from what was looked up make no
calls for their items. -/
inductive Concludes (e : Executor σ) (policy : Policy) (ops : List Operation) :
    Except RequestError BatchResult → List Event → Prop
  | conflicting (continues : policy.continueOnError = true) :
      Concludes e policy ops (.error .conflictingPolicies) []
  | unlooked {looks : List Event} {error : RequestError}
      (looked : Queried e.table [] looks (.error error)) : Concludes e policy ops (.error error) looks
  | answered {partition : String} {prepared : List Prepared} {looks : List Event} {found : Images}
      (way : e.route policy (e.items ops) = .reads partition prepared)
      (looked : Queried e.table [] looks (.ok found)) (all : unanswered found prepared = none)
      (result : BatchResult) : Concludes e policy ops (.ok result) looks
  | missed {partition : String} {prepared : List Prepared} {looks : List Event} {found : Images}
      {error : RequestError} (way : e.route policy (e.items ops) = .reads partition prepared)
      (looked : Queried e.table [] looks (.ok found))
      (one : unanswered found prepared = some error) : Concludes e policy ops (.error error) looks
  | made {images : Option Images} {looks : List Event} {steps : List (e.Passed images)}
      (ahead : e.Ahead (e.route policy (e.items ops)) looks images)
      (are : e.items ops = steps.map Passed.sent) (result : BatchResult) :
      Concludes e policy ops (.ok result) (looks ++ steps.flatMap Passed.events)
  | undone {images : Option Images} {looks : List Event} {steps : List (e.Passed images)} {index : Nat}
      {item : Except RequestError Prepared} {rest : List (Nat × Except RequestError Prepared)}
      {its undo : List Event} {error : RequestError}
      (ahead : e.Ahead (e.route policy (e.items ops)) looks images)
      (are : e.items ops = steps.map Passed.sent ++ (index, item) :: rest)
      (fails : e.Fails images item its error)
      (undoes : undo.map Event.asked = (steps.filterMap Passed.inverse).reverse) :
      Concludes e policy ops (.error error) (looks ++ steps.flatMap Passed.events ++ its ++ undo)

theorem rollBack_traced {log : UndoLog} {inverses : List Asked}
    (logged : Logged e.table log inverses) (p : Progress (Traced σ)) :
    ∃ undo s, (ran (e.traced.rollBack log) p).2 = p.noting s undo ∧
      undo.map Event.asked = inverses.reverse := by
  obtain ⟨undo, grown, asked⟩ :=
    Traced.compensate_events e.backend e.table logged.needed p.store
  refine ⟨undo, ((UndoLog.compensate (Traced.backend e.backend) e.table log.entries).run
    p.store).2.store, ?_, asked.trans logged.asked⟩
  rw [ran_rollBack, Progress.noting, ← grown]
  rfl

variable {policy : Policy} {ops : List Operation}

theorem ran_answerAll_unanswered (rollback : policy.rollback = true)
    (stops : policy.continueOnError = false) (found : Images) (items : List Prepared) (run : Run)
    (nothing : run.log = .empty) (p : Progress (Traced σ)) :
    (unanswered found items = none ∧
        ∃ run', ran (e.traced.answerAll policy found run items) p = (.ok run', p)) ∨
      ∃ error, unanswered found items = some error ∧
        ran (e.traced.answerAll policy found run items) p =
          (.error error, { p with state := .rolledBack }) := by
  induction items generalizing run with
  | nil => exact .inl ⟨rfl, run, rfl⟩
  | cons item rest ih =>
    rw [answerAll_cons, unanswered]
    cases answerFrom found item with
    | ok r =>
      let run' : Run := ⟨run.result.record item.index (e.traced.clean r), run.log⟩
      have settled : ran (e.traced.settle policy run item.index
          ((Except.ok r).map fun r => (r, none))) p = (.ok run', p) := rfl
      rw [ran_bind_ok settled]
      exact ih run' nothing
    | error error =>
      have failed : ran (e.traced.settle policy run item.index (.error error)) p =
          (.error error, { p with state := .rolledBack }) := by
        simp only [settle, stops, rollback, nothing, Bool.false_eq_true, if_false, if_true]
        rfl
      exact .inr ⟨error, rfl, ran_bind_error failed⟩

theorem concludes_sendAll (answering : e.backend.Answering) (rollback : policy.rollback = true)
    (stops : policy.continueOnError = false) {images : Option Images} {looks : List Event}
    (ahead : e.Ahead (e.route policy (e.items ops)) looks images) (p : Progress (Traced σ)) (s : σ) :
    ∃ outcome its after, ran (do
        commit (← e.traced.sendAll policy images ⟨.empty, .empty⟩ (e.items ops))) (p.noting s looks) =
        (outcome, after) ∧ after.store.events = p.store.events ++ its ∧
      e.Concludes policy ops outcome its := by
  have nothing : Logged e.table UndoLog.empty [] :=
    ⟨fun _ member => absurd member List.not_mem_nil, rfl⟩
  obtain ⟨run, failure, its, s', steps, sent, sends, logged⟩ := sends_sendUntil answering images
    (e.items ops) ⟨.empty, .empty⟩ nothing (p.noting s looks)
  have all := ran_sendAll e.traced rollback stops images (e.items ops) ⟨.empty, .empty⟩
    (p.noting s looks)
  rw [sent] at all
  cases sends with
  | all are =>
    refine ⟨_, _, _, ran_bind_ok all, ?_, .made ahead are run.result⟩
    rw [p.noting_noting]
    rfl
  | upTo are fails =>
    rw [List.nil_append] at logged
    obtain ⟨undo, s'', undone, asked⟩ :=
      rollBack_traced logged { (p.noting s looks).noting s' _ with state := .rolledBack }
    refine ⟨_, _, _, ran_bind_error all, ?_, .undone ahead are fails asked⟩
    rw [undone]
    change p.store.events ++ looks ++ (_ ++ _) ++ undo = p.store.events ++ (looks ++ _ ++ _ ++ undo)
    simp only [List.append_assoc]

theorem concludes_answerAll (rollback : policy.rollback = true) (stops : policy.continueOnError = false)
    {partition : String} {prepared : List Prepared} {looks : List Event} {found : Images}
    (way : e.route policy (e.items ops) = .reads partition prepared)
    (looked : Queried e.table [] looks (.ok found)) (p : Progress (Traced σ)) (s : σ) :
    ∃ outcome its after, ran (do
        commit (← e.traced.answerAll policy found ⟨.empty, .empty⟩ prepared)) (p.noting s looks) =
        (outcome, after) ∧ after.store.events = p.store.events ++ its ∧
      e.Concludes policy ops outcome its := by
  rcases ran_answerAll_unanswered (e := e) rollback stops found prepared ⟨.empty, .empty⟩ rfl
    (p.noting s looks) with ⟨all, run, ended⟩ | ⟨error, one, ended⟩
  · exact ⟨_, looks, _, ran_bind_ok ended, rfl, .answered way looked all run.result⟩
  · exact ⟨_, looks, _, ran_bind_error ended, rfl, .missed way looked one⟩

theorem concludes_conduct (answering : e.backend.Answering) (rollback : policy.rollback = true)
    (stops : policy.continueOnError = false)
    (apart : ∀ partition prepared, e.route policy (e.items ops) ≠ .atomic partition prepared)
    (p : Progress (Traced σ)) : ∃ outcome its after, ran (e.traced.conduct policy ops) p =
        (outcome, after) ∧ after.store.events = p.store.events ++ its ∧
      e.Concludes policy ops outcome its := by
  have items : e.traced.items ops = e.items ops := rfl
  have way : e.traced.route policy (e.items ops) = e.route policy (e.items ops) := rfl
  rw [conduct, items, way]
  have fetched (partition : String) (prepared : List Prepared) :
      ∃ outcome looks s, ran (e.traced.fetch partition prepared) p = (outcome, p.noting s looks) ∧
        Queried e.table [] looks outcome := queried_queryAll _ [] p
  cases route : e.route policy (e.items ops) with
  | atomic partition prepared => exact absurd route (apart partition prepared)
  | oneByOne =>
    have ahead : e.Ahead (e.route policy (e.items ops)) [] none := by
      rw [route]
      exact .nothing
    obtain ⟨outcome, its, after, ended, events, ends⟩ :=
      concludes_sendAll answering rollback stops ahead p p.store.store
    rw [p.noting_nothing] at ended
    exact ⟨outcome, its, after, ended, events, ends⟩
  | reads partition prepared =>
    obtain ⟨outcome, looks, s, ended, looked⟩ := fetched partition prepared
    cases outcome with
    | error error => exact ⟨_, looks, _, ran_bind_error ended, rfl, .unlooked looked⟩
    | ok found =>
      simp only
      rw [ran_bind_ok ended]
      exact concludes_answerAll rollback stops route looked p s
  | deletes partition prepared =>
    obtain ⟨outcome, looks, s, ended, looked⟩ := fetched partition prepared
    cases outcome with
    | error error => exact ⟨_, looks, _, ran_bind_error ended, rfl, .unlooked looked⟩
    | ok found =>
      have ahead : e.Ahead (e.route policy (e.items ops)) looks (some found) := by
        rw [route]
        exact .images looked
      simp only
      rw [ran_bind_ok ended]
      exact concludes_sendAll answering rollback stops ahead p s

theorem sees_traced (e : Executor σ) : e.traced.Sees Traced.store e :=
  ⟨⟨rfl, fun _ _ _ => rfl, fun _ _ _ => rfl, fun _ _ _ => rfl, fun _ _ _ _ => rfl,
    fun _ _ _ _ => rfl, fun _ _ _ _ => rfl, fun _ _ _ => rfl, fun _ _ _ => rfl⟩, rfl, rfl, rfl, rfl⟩

/-- A batch with rollback that is not handed over as a whole ends as its items do up to the first that
fails. The calls for these are followed by exactly those that undo what was changed, newest first and
whatever is answered to them; no other item is taken up, and the error is that of the item. -/
theorem changes_undone_newest_first (answering : e.backend.Answering)
    (rollback : e.options.rollback = true) {first : Operation} {more : List Operation}
    (several : more ≠ []) (apart : ∀ partition prepared,
      e.route (e.policy first.verb (first :: more).length) (e.items (first :: more)) ≠
        .atomic partition prepared) (p : Progress σ) :
    ∃ outcome its after, ran (e.execute (first :: more)) p = (outcome, after) ∧
      ran (e.traced.execute (first :: more)) ⟨⟨p.store, []⟩, p.state⟩ =
        (outcome, ⟨⟨after.store, its⟩, after.state⟩) ∧
      e.Concludes (e.policy first.verb (first :: more).length) (first :: more) outcome its := by
  let begun : Progress (Traced σ) := ⟨⟨p.store, []⟩, p.state⟩
  let policy := e.policy first.verb (first :: more).length
  have several' : ((first :: more).length != 1) = true := by
    rw [bne_iff_ne, List.length_cons]
    have some := List.length_pos_iff.mpr several
    omega
  have undone : policy.rollback = true := by
    change (e.options.rollback && (first :: more).length != 1) = true
    rw [rollback, several']
    rfl
  have told : ∃ outcome its after, ran (e.traced.execute (first :: more)) begun = (outcome, after) ∧
      after.store.events = its ∧ e.Concludes policy (first :: more) outcome its := by
    have same : e.traced.policy first.verb (first :: more).length = policy := rfl
    rw [execute_cons, same]
    cases continues : policy.continueOnError with
    | false =>
      simp only [undone, continues, Bool.and_false, Bool.false_eq_true, if_false]
      rw [ran_bind_ok (ran_enter _ _)]
      exact concludes_conduct answering undone continues apart { begun with state := .collecting }
    | true =>
      simp only [undone, continues, Bool.and_true, if_true]
      exact ⟨_, [], begun, rfl, rfl, .conflicting continues⟩
  obtain ⟨outcome, its, after, ended, events, ends⟩ := told
  have plain : ran (e.execute (first :: more)) p = ((ran (e.traced.execute (first :: more)) begun).1,
      (ran (e.traced.execute (first :: more)) begun).2.seen Traced.store) :=
    sees_execute (sees_traced e) rfl rfl rfl rfl begun
  rw [ended] at plain
  obtain ⟨⟨s, events'⟩, state⟩ := after
  cases events
  exact ⟨outcome, events', ⟨s, state⟩, plain, ended, ends⟩

end Executor

namespace EntityTable

theorem lacks_of_find? {t : EntityTable} {table partition row : String}
    (absent : t.find? table partition row = none) :
    backend.Lacks table (.entity partition row) t := by
  have loaded : ran (load table partition row) t = (.ok none, t) := by
    rw [load, ran_bind_ok (ran_get t), absent]
    rfl
  have refused (mode : WriteMode) (update : mode = .replace ∨ mode = .merge) (r shown : Record)
      (t' : EntityTable) : ran (write mode table partition row r) t ≠ (.ok shown, t') := by
    have missed : written mode partition row none r = .error (missing partition row) := by
      rcases update with rfl | rfl <;> rfl
    intro wrote
    rw [ran_write_refused (by rw [loaded]; exact missed)] at wrote
    cases wrote
  refine ⟨fun r => refused .replace (.inl rfl) r, fun r => refused .merge (.inr rfl) r,
    fun t' removed => ?_⟩
  change ran (remove table partition row) t = _ at removed
  rw [ran_remove_eq, absent] at removed
  cases removed

theorem answering : backend.Answering := by
  constructor
  · intro table r t created t' inserted
    change ran (writeOwn .insert table r) t = _ at inserted
    rw [ran_writeOwn] at inserted
    cases own : ownKey r with
    | error fault =>
      rw [own] at inserted
      cases inserted
    | ok parts =>
      obtain ⟨partition, row⟩ := parts
      simp only [own] at inserted
      rcases write_cases (t := t) .insert table partition row r with
        ⟨fault, refused⟩ | ⟨q, properties, wrote⟩
      · rw [refused] at inserted
        cases inserted
      · rw [wrote] at inserted
        cases inserted
        exact ⟨_, Entity.keyOf_record properties (ownKey_ok own).1 (ownKey_ok own).2⟩
  · intro table key t what t' got
    cases key with
    | document id => cases got
    | entity partition row =>
      rw [ran_get_entity] at got
      rcases loaded : ran (load table partition row) t with ⟨outcome, after⟩
      rw [loaded] at got
      rcases outcome with fault | _ | r
      · obtain ⟨message, rfl⟩ := load_fault loaded
        cases got
      · obtain ⟨rfl, absent⟩ := find?_of_load loaded
        cases got
        exact lacks_of_find? absent
      · cases got

end EntityTable

namespace Executor

def scattered : List Operation :=
  Operation.ofKeys .delete [.entity "P" "a", .entity "Q" "x"] none

theorem changes_undone_newest_first_of_deletes :
    EntityTable.backend.Answering ∧
      ∃ outcome its after, ran (reverting.execute scattered) ⟨lone "a", .idle⟩ = (outcome, after) ∧
        ran (reverting.traced.execute scattered) ⟨⟨lone "a", []⟩, .idle⟩ =
          (outcome, ⟨⟨after.store, its⟩, after.state⟩) ∧
        reverting.Concludes (reverting.policy .delete 2) scattered outcome its := by
  refine ⟨EntityTable.answering, changes_undone_newest_first EntityTable.answering rfl
    (List.cons_ne_nil _ []) (fun partition prepared atomic => ?_) ⟨lone "a", .idle⟩⟩
  have apart : reverting.route (reverting.policy .delete 2) (reverting.items scattered) =
      .oneByOne := by
    rfl
  cases apart.symm.trans atomic

end Executor

end StoreGateway

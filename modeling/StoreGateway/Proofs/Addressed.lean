import StoreGateway.Proofs.RowKeys

/-! Batches change the records that they address, and no others. -/

namespace StoreGateway

variable {σ ρ : Type}

/-- How what a store keeps is found by its key, and read. -/
structure Shelf (σ ρ : Type) where
  /-- What every call keeps up. -/
  kept : σ → Prop
  find : σ → String → RecordKey → Option ρ
  read : ρ → Option Record

namespace Shelf

variable {shelf : Shelf σ ρ} {table : String} {keys : RecordKey → Prop} {s s' s'' : σ}

/-- Apart from some keys of one table, all is as it was. -/
structure Confined (shelf : Shelf σ ρ) (table : String) (keys : RecordKey → Prop) (before after : σ) :
    Prop where
  kept : shelf.kept after
  same : ∀ name key, ¬ (name = table ∧ keys key) →
    shelf.find after name key = shelf.find before name key

theorem confined_refl (kept : shelf.kept s) : shelf.Confined table keys s s :=
  ⟨kept, fun _ _ _ => rfl⟩

theorem Confined.trans (first : shelf.Confined table keys s s')
    (second : shelf.Confined table keys s' s'') : shelf.Confined table keys s s'' :=
  ⟨second.kept, fun name key apart => (second.same name key apart).trans (first.same name key apart)⟩

theorem Confined.mono {more : RecordKey → Prop} (confined : shelf.Confined table keys s s')
    (within : ∀ key, keys key → more key) : shelf.Confined table more s s' :=
  ⟨confined.kept, fun name key apart =>
    confined.same name key fun both => apart ⟨both.1, within key both.2⟩⟩

theorem Confined.among {key : RecordKey} (confined : shelf.Confined table (· = key) s s')
    (inside : keys key) : shelf.Confined table keys s s' :=
  confined.mono fun _ same => same ▸ inside

/-- What was read for a key at some time. -/
def Was (shelf : Shelf σ ρ) (table : String) (key : RecordKey) (r : Record) : Prop :=
  ∃ s x, shelf.kept s ∧ shelf.find s table key = some x ∧ shelf.read x = some r

end Shelf

/-- The keys of an operation are among some. -/
def Write.Within (kind : StoreKind) (keys : RecordKey → Prop) : Write → Prop
  | .delete key => keys key
  | .insert r | .replace r | .upsert r | .merge r => ∃ key, kind.keyOf r none = .ok key ∧ keys key

/-- The calls of a store by what they may change. -/
structure Backend.Shelves (b : Backend σ) (shelf : Shelf σ ρ) : Prop where
  query_same : ∀ table q s, (ran (b.query table q) s).2 = s
  get_same : ∀ table key s, (ran (b.get table key) s).2 = s
  get_was : ∀ {table key s r}, shelf.kept s → (ran (b.get table key) s).1 = .ok r →
    shelf.Was table key r
  fetch_was : ∀ {table partition ids s records}, b.kind = .table → partition ≠ "" → ids ≠ [] →
    shelf.kept s →
    (ran (b.query table (.ofText (Entity.idsFilter (some partition) ids))) s).1 = .ok records →
    ∀ r ∈ records, ∀ row, r.get? rowKey = some (.string row) →
      shelf.Was table (.entity partition row) r
  replace : ∀ table key r {s}, shelf.kept s →
    shelf.Confined table (· = key) s (ran (b.replace table key r) s).2
  upsert : ∀ table key r {s}, shelf.kept s →
    shelf.Confined table (· = key) s (ran (b.upsert table key r) s).2
  merge : ∀ table key r {s}, shelf.kept s →
    shelf.Confined table (· = key) s (ran (b.merge table key r) s).2
  delete : ∀ table key {s}, shelf.kept s →
    shelf.Confined table (· = key) s (ran (b.delete table key) s).2
  insert : ∀ table {key s r}, shelf.kept s → b.kind.keyOf r none = .ok key →
    shelf.Confined table (· = key) s (ran (b.insert table r) s).2
  insert_key : ∀ {table key s r created other}, b.kind.keyOf r none = .ok key →
    (ran (b.insert table r) s).1 = .ok created → b.kind.keyOf created none = .ok other → other = key
  key_was : ∀ {table key other r}, shelf.Was table key r → b.kind.keyOf r none = .ok other →
    other = key
  insert_again : ∀ {table key s r}, shelf.kept s → shelf.Was table key r →
    shelf.Confined table (· = key) s (ran (b.insert table r) s).2
  submit : ∀ {table keys s writes}, shelf.kept s → (∀ w ∈ writes, w.Within b.kind keys) →
    shelf.Confined table keys s (ran (b.submitBatch table writes) s).2

variable {b : Backend σ} {shelf : Shelf σ ρ} {table : String} {keys : RecordKey → Prop}

/-- An entry undoes a change of a record with one of the keys, as it was before. -/
structure UndoEntry.Within (u : UndoEntry) (shelf : Shelf σ ρ) (table : String)
    (keys : RecordKey → Prop) : Prop where
  key : keys u.key
  prior : ∀ r, u.prior = some r → shelf.Was table u.key r

theorem confined_undo (shelves : b.Shelves shelf) {u : UndoEntry}
    (within : u.Within shelf table keys) {s : σ} (kept : shelf.kept s) :
    shelf.Confined table keys s (ran (u.undo b table) s).2 := by
  obtain ⟨verb, key, prior⟩ := u
  have deleted := (shelves.delete table key kept).among within.key
  have upserted (r : Record) := (shelves.upsert table key r kept).among within.key
  cases verb with
  | create => exact deleted
  | get => exact Shelf.confined_refl kept
  | replace =>
    cases prior with
    | none => exact deleted
    | some r =>
      change shelf.Confined table keys s (ran (do let _ ← b.upsert table key r) s).2
      rw [ran_ignored]
      exact upserted r
  | patch =>
    cases prior with
    | none => exact deleted
    | some r =>
      change shelf.Confined table keys s (ran (do let _ ← b.upsert table key r) s).2
      rw [ran_ignored]
      exact upserted r
  | delete =>
    cases prior with
    | none => exact Shelf.confined_refl kept
    | some r =>
      change shelf.Confined table keys s (ran (do let _ ← b.insert table r) s).2
      rw [ran_ignored]
      exact (shelves.insert_again kept (within.prior r rfl)).among within.key

theorem confined_compensate (shelves : b.Shelves shelf) {entries : List UndoEntry}
    (within : ∀ u ∈ entries, u.Within shelf table keys) {s : σ} (kept : shelf.kept s) :
    shelf.Confined table keys s ((UndoLog.compensate b table entries).run s).2 := by
  -- the induction is on the entries, from the newest on
  induction entries generalizing s with
  | nil => exact Shelf.confined_refl kept
  | cons u rest ih =>
    have others := fun v member => within v (List.mem_cons_of_mem u member)
    rw [UndoLog.compensate]
    cases u.isNeeded with
    | false => exact ih others kept
    | true =>
      have undone := confined_undo shelves (within u List.mem_cons_self) kept
      exact undone.trans (ih others undone.kept)

namespace Executor

open Running

variable {e : Executor σ}

/-- An item for one of the keys, which a record that it writes says itself. -/
structure Addresses (kind : StoreKind) (keys : RecordKey → Prop) (item : Prepared)
    (key : RecordKey) : Prop where
  named : item.key = some key
  inside : keys key
  own : item.verb.needsRecord = true → kind.keyOf item.record none = .ok key

theorem store_perform {α : Type} (call : Call σ α) (p : Progress σ) :
    (ran (perform call) p).2.store = (ran call p.store).2 := by
  rw [Running.ran_perform]
  rcases ran call p.store with ⟨_ | _, after⟩ <;> rfl

theorem outcome_perform {α : Type} {call : Call σ α} {p : Progress σ} {a : α}
    (outcome : (ran (perform call) p).1 = .ok a) : (ran call p.store).1 = .ok a := by
  rw [Running.ran_perform] at outcome
  rcases called : ran call p.store with ⟨_ | _, after⟩
  · rw [called] at outcome
    cases outcome
  · rw [called] at outcome
    cases outcome
    rfl

/-- Records that were found before by their row keys. -/
def Recalled (e : Executor σ) (shelf : Shelf σ ρ) (images : Option Images) (key : RecordKey) : Prop :=
  ∀ found, images = some found → ∀ r, found.of? key = some r → shelf.Was e.table key r

theorem was_of_prior (shelves : b.Shelves shelf) (backend : e.backend = b) {rollback : Bool}
    {images : Option Images} {verb : Verb} {key : RecordKey} {p after : Progress σ}
    {outcome : Except RequestError (Option Record)} (kept : shelf.kept p.store)
    (recalled : e.Recalled shelf images key)
    (run : ran (e.prior rollback images verb key) p = (outcome, after)) :
    after.store = p.store ∧ ∀ r, outcome = .ok (some r) → shelf.Was e.table key r := by
  subst backend
  cases images with
  | some found =>
    cases image : found.of? key with
    | none =>
      rw [e.prior_unknown rollback image] at run
      cases run
      exact ⟨rfl, nofun⟩
    | some r =>
      rw [e.prior_known rollback image] at run
      cases run
      refine ⟨rfl, fun r' same => ?_⟩
      cases same
      exact recalled found rfl r image
  | none =>
    by_cases wanted : (rollback || (verb == .delete && e.options.fields != .idsOnly)) = true
    · rw [e.ran_prior_wanted wanted] at run
      cases run
      refine ⟨shelves.get_same e.table key p.store, fun r is => ?_⟩
      cases got : (ran (e.backend.get e.table key) p.store).1 with
      | ok r' =>
        rw [got] at is
        cases is
        exact shelves.get_was kept got
      | error fault =>
        rw [got] at is
        cases fault <;> cases is
    · rw [e.prior_unwanted wanted] at run
      cases run
      exact ⟨rfl, nofun⟩

theorem confined_change (shelves : b.Shelves shelf) (backend : e.backend = b) (item : Prepared)
    (key : RecordKey) (prior : Option Record) {p : Progress σ} (kept : shelf.kept p.store) :
    shelf.Confined e.table (· = key) p.store (ran (e.change item key prior) p).2.store := by
  subst backend
  have deleted : shelf.Confined e.table (· = key) p.store (ran (do
      perform (e.backend.delete e.table key)
      return prior.getD key.toRecord : Running σ Record) p).2.store := by
    refine ran_bind_keeps (P := fun q : Progress σ => shelf.Confined e.table (· = key) p.store q.store)
      ?_ fun _ _ confined => confined
    rw [store_perform]
    exact shelves.delete e.table key kept
  rcases e.change_cases item key prior with called | called | called | called
  · rw [called, store_perform]
    exact shelves.upsert _ _ _ kept
  · rw [called, store_perform]
    exact shelves.replace _ _ _ kept
  · rw [called, store_perform]
    exact shelves.merge _ _ _ kept
  · rw [called]
    exact deleted

theorem confined_send_keyed (shelves : b.Shelves shelf) (backend : e.backend = b) {rollback : Bool}
    {images : Option Images} {item : Prepared} {key : RecordKey} (named : item.key = some key)
    (inside : keys key) (recalled : e.Recalled shelf images key)
    (is : item.verb = .replace ∨ item.verb = .patch ∨ item.verb = .delete)
    {p after : Progress σ} {outcome : Except RequestError (Record × Option UndoEntry)}
    (kept : shelf.kept p.store) (run : ran (e.send rollback images item) p = (outcome, after)) :
    shelf.Confined e.table keys p.store after.store ∧
      ∀ r u, outcome = .ok (r, some u) → u.Within shelf e.table keys := by
  rw [send_keyed e rollback images named is] at run
  rcases looked : ran (e.prior rollback images item.verb key) p with ⟨prior, q⟩
  obtain ⟨same, was⟩ := was_of_prior shelves backend kept recalled looked
  rw [← same] at kept ⊢
  cases prior with
  | error error =>
    rw [ran_bind_error looked] at run
    cases run
    exact ⟨Shelf.confined_refl kept, fun _ _ same => by cases same⟩
  | ok prior =>
    rw [ran_bind_ok looked] at run
    have changed := (confined_change shelves backend item key prior kept).among inside
    rcases made : ran (e.change item key prior) q with ⟨result, q'⟩
    rw [made] at changed
    cases result with
    | error error =>
      rw [ran_bind_error made] at run
      cases run
      exact ⟨changed, fun _ _ same => by cases same⟩
    | ok r =>
      rw [ran_bind_ok made] at run
      cases run
      refine ⟨changed, fun r' u undo => ?_⟩
      simp only [Except.ok.injEq, Prod.mk.injEq] at undo
      obtain ⟨-, undo⟩ := undo
      split at undo
      · cases undo
        exact ⟨inside, fun before is => was before (by rw [← is])⟩
      · cases undo

theorem confined_create (shelves : b.Shelves shelf) (backend : e.backend = b) {rollback : Bool}
    {images : Option Images} {item : Prepared} {key : RecordKey}
    (addresses : Addresses b.kind keys item key) (create : item.verb = .create)
    {p after : Progress σ} {outcome : Except RequestError (Record × Option UndoEntry)}
    (kept : shelf.kept p.store) (run : ran (e.send rollback images item) p = (outcome, after)) :
    shelf.Confined e.table keys p.store after.store ∧
      ∀ r u, outcome = .ok (r, some u) → u.Within shelf e.table keys := by
  subst backend
  have own := addresses.own (by rw [create]; rfl)
  have inserted := (shelves.insert e.table kept own).among addresses.inside
  rw [e.send_create rollback images create] at run
  rcases made : ran (perform (e.backend.insert e.table item.record)) p with ⟨result, q⟩
  have stored := store_perform (e.backend.insert e.table item.record) p
  rw [made] at stored
  rw [← stored] at inserted
  cases result with
  | error error =>
    rw [ran_bind_error made] at run
    cases run
    exact ⟨inserted, fun _ _ same => by cases same⟩
  | ok created =>
    have answered := outcome_perform (congrArg Prod.fst made)
    rw [ran_bind_ok made] at run
    cases keyed : e.backend.kind.keyOf created none with
    | error fault =>
      rw [keyed] at run
      cases run
      exact ⟨inserted, fun _ _ same => by cases same⟩
    | ok other =>
      rw [keyed] at run
      cases run
      refine ⟨inserted, fun r u undo => ?_⟩
      simp only [Except.ok.injEq, Prod.mk.injEq] at undo
      obtain ⟨-, undo⟩ := undo
      split at undo
      · cases undo
        have same := shelves.insert_key own answered keyed
        exact ⟨same ▸ addresses.inside, fun _ same => by cases same⟩
      · cases undo

theorem confined_send (shelves : b.Shelves shelf) (backend : e.backend = b) {rollback : Bool}
    {images : Option Images} {item : Prepared} {key : RecordKey}
    (addresses : Addresses b.kind keys item key) (recalled : e.Recalled shelf images key)
    {p after : Progress σ} {outcome : Except RequestError (Record × Option UndoEntry)}
    (kept : shelf.kept p.store) (run : ran (e.send rollback images item) p = (outcome, after)) :
    shelf.Confined e.table keys p.store after.store ∧
      ∀ r u, outcome = .ok (r, some u) → u.Within shelf e.table keys := by
  have keyed (is : item.verb = .replace ∨ item.verb = .patch ∨ item.verb = .delete) :=
    confined_send_keyed shelves backend addresses.named addresses.inside recalled is kept run
  cases verb : item.verb with
  | create => exact confined_create shelves backend addresses verb kept run
  | replace => exact keyed (.inl verb)
  | patch => exact keyed (.inr (.inl verb))
  | delete => exact keyed (.inr (.inr verb))
  | get =>
    have still := store_perform (e.backend.get e.table key) p
    rw [backend, shelves.get_same] at still
    rw [e.send_get rollback images verb addresses.named, backend] at run
    rcases made : ran (perform (b.get e.table key)) p with ⟨result, q⟩
    rw [made] at still
    cases result with
    | error error =>
      rw [ran_bind_error made] at run
      cases run
      rw [still]
      exact ⟨Shelf.confined_refl kept, fun _ _ same => by cases same⟩
    | ok r =>
      rw [ran_bind_ok made] at run
      cases run
      rw [still]
      exact ⟨Shelf.confined_refl kept, fun _ _ same => by cases same⟩

def Undoable (e : Executor σ) (shelf : Shelf σ ρ) (keys : RecordKey → Prop) (run : Run) : Prop :=
  ∀ u ∈ run.log.entries, u.Within shelf e.table keys

theorem confined_rollBack (shelves : b.Shelves shelf) (backend : e.backend = b) {run : Run}
    (undoable : e.Undoable shelf keys run) {p : Progress σ} (kept : shelf.kept p.store) :
    shelf.Confined e.table keys p.store (ran (e.rollBack run.log) p).2.store := by
  subst backend
  exact confined_compensate shelves undoable kept

theorem confined_settle (shelves : b.Shelves shelf) (backend : e.backend = b) (policy : Policy)
    {run : Run} {index : Nat} {outcome : Except RequestError (Record × Option UndoEntry)}
    {p after : Progress σ} {result : Except RequestError Run} (undoable : e.Undoable shelf keys run)
    (undo : ∀ r u, outcome = .ok (r, some u) → u.Within shelf e.table keys)
    (kept : shelf.kept p.store) (ended : ran (e.settle policy run index outcome) p = (result, after)) :
    shelf.Confined e.table keys p.store after.store ∧
      ∀ run', result = .ok run' → e.Undoable shelf keys run' := by
  have still : shelf.Confined e.table keys p.store p.store := Shelf.confined_refl kept
  cases outcome with
  | ok pair =>
    obtain ⟨r, entry⟩ := pair
    cases ended
    refine ⟨still, fun run' same => ?_⟩
    cases same
    cases entry with
    | none => exact undoable
    | some u =>
      intro v member
      rcases List.mem_cons.mp member with rfl | member
      · exact undo r v rfl
      · exact undoable v member
  | error error =>
    simp only [settle] at ended
    split at ended
    · cases ended
      refine ⟨still, fun run' same => ?_⟩
      cases same
      exact undoable
    · split at ended
      · have undone := confined_rollBack shelves backend undoable (p := { p with state := .rolledBack }) kept
        cases ended
        exact ⟨undone, fun _ same => by cases same⟩
      · rw [ran_bind_ok (ran_enter _ p)] at ended
        split at ended <;> cases ended <;> exact ⟨still, fun _ same => by cases same⟩

theorem confined_sendAll (shelves : b.Shelves shelf) (backend : e.backend = b) (policy : Policy)
    {images : Option Images} {items : List (Nat × Except RequestError Prepared)} {run : Run}
    {p : Progress σ} (undoable : e.Undoable shelf keys run)
    (each : ∀ i ∈ items, ∀ item, i.2 = .ok item →
      ∃ key, Addresses b.kind keys item key ∧ e.Recalled shelf images key)
    (kept : shelf.kept p.store) :
    shelf.Confined e.table keys p.store (ran (e.sendAll policy images run items) p).2.store := by
  -- the induction is on the items; what one leaves for undoing is handed on to the next
  induction items generalizing run p with
  | nil => exact Shelf.confined_refl kept
  | cons i rest ih =>
    obtain ⟨index, item⟩ := i
    have others := fun j member => each j (List.mem_cons_of_mem _ member)
    have continues {outcome : Except RequestError (Record × Option UndoEntry)} {after : Progress σ}
        (confined : shelf.Confined e.table keys p.store after.store)
        (undo : ∀ r u, outcome = .ok (r, some u) → u.Within shelf e.table keys) :
        shelf.Confined e.table keys p.store (ran (do
          let run ← e.settle policy run index outcome
          e.sendAll policy images run rest) after).2.store := by
      rcases settled : ran (e.settle policy run index outcome) after with ⟨result, after'⟩
      obtain ⟨confined', undoable'⟩ := confined_settle shelves backend policy undoable undo
        confined.kept settled
      cases result with
      | error error =>
        rw [ran_bind_error settled]
        exact confined.trans confined'
      | ok run' =>
        rw [ran_bind_ok settled]
        exact (confined.trans confined').trans (ih (undoable' run' rfl) others confined'.kept)
    cases item with
    | error error =>
      simp only [sendAll]
      exact @continues (.error error) p (Shelf.confined_refl kept) fun _ _ same => by cases same
    | ok item =>
      obtain ⟨key, addresses, recalled⟩ := each _ List.mem_cons_self item rfl
      rcases sent : ran (e.send policy.rollback images item) p with ⟨outcome, after⟩
      obtain ⟨confined, undo⟩ := confined_send shelves backend addresses recalled kept sent
      have attempted : ran (attempt (e.send policy.rollback images item)) p = (.ok outcome, after) := by
        rw [ran_attempt, sent]
      simp only [sendAll]
      rw [ran_bind_ok attempted]
      exact continues confined undo

theorem confined_answerAll (shelves : b.Shelves shelf) (backend : e.backend = b) (policy : Policy)
    (found : Images) {items : List Prepared} {run : Run} {p : Progress σ}
    (undoable : e.Undoable shelf keys run) (kept : shelf.kept p.store) :
    shelf.Confined e.table keys p.store (ran (e.answerAll policy found run items) p).2.store := by
  induction items generalizing run p with
  | nil => exact Shelf.confined_refl kept
  | cons item rest ih =>
    have continues (outcome : Except RequestError (Record × Option UndoEntry))
        (nothing : ∀ r u, outcome ≠ .ok (r, some u)) :
        shelf.Confined e.table keys p.store (ran (do
          let run ← e.settle policy run item.index outcome
          e.answerAll policy found run rest) p).2.store := by
      rcases settled : ran (e.settle policy run item.index outcome) p with ⟨result, after⟩
      obtain ⟨confined, undoable'⟩ := confined_settle shelves backend policy undoable
        (fun r u same => absurd same (nothing r u)) kept settled
      cases result with
      | error error =>
        rw [ran_bind_error settled]
        exact confined
      | ok run' =>
        rw [ran_bind_ok settled]
        exact confined.trans (ih (undoable' run' rfl) confined.kept)
    rw [answerAll]
    refine continues _ fun r u same => ?_
    cases required : item.requireKey with
    | error error => rw [required] at same; cases same
    | ok key =>
      rw [required] at same
      cases image : found.of? key with
      | none => simp only [bind, Except.bind, image] at same; cases same
      | some r' => simp only [bind, Except.bind, image] at same; cases same

/-- What is looked up for the keys of a partition was read for them. -/
theorem was_of_queryAll (shelves : b.Shelves shelf) (backend : e.backend = b)
    (table : b.kind = .table) {partition : String} (present : partition ≠ "")
    {pieces : List (List String)} (any : ∀ ids ∈ pieces, ids ≠ []) {images found : Images}
    {p after : Progress σ} (kept : shelf.kept p.store)
    (known : ∀ row r, (row, r) ∈ images → shelf.Was e.table (.entity partition row) r)
    (run : ran (e.queryAll images (pieces.map (Entity.idsFilter (some partition)))) p =
      (.ok found, after)) :
    ∀ row r, (row, r) ∈ found → shelf.Was e.table (.entity partition row) r := by
  subst backend
  -- the induction is on the pieces that the keys are looked up in
  induction pieces generalizing images p with
  | nil =>
    cases run
    exact known
  | cons ids pieces ih =>
    rw [List.map_cons, queryAll] at run
    have still := store_perform
      (e.backend.query e.table (.ofText (Entity.idsFilter (some partition) ids))) p
    rw [shelves.query_same] at still
    rcases asked : ran (perform (e.backend.query e.table
      (.ofText (Entity.idsFilter (some partition) ids)))) p with ⟨outcome, p'⟩
    cases outcome with
    | error error =>
      rw [ran_bind_error asked] at run
      cases run
    | ok records =>
      have answered := outcome_perform (congrArg Prod.fst asked)
      rw [asked] at still
      rw [ran_bind_ok asked] at run
      have shown := shelves.fetch_was table present (any ids List.mem_cons_self) kept answered
      rw [← still] at kept
      refine ih (fun ids member => any ids (List.mem_cons_of_mem _ member)) kept ?_ run
      intro row r member
      rcases mem_addImages member with before | ⟨inside, key⟩
      · exact known row r before
      · exact shown r inside row key

/-- A key that a record with its parts says. -/
def Plain (kind : StoreKind) (key : RecordKey) : Prop := kind.keyOf key.toRecord none = .ok key

theorem recalled_of_fetch (shelves : b.Shelves shelf) (backend : e.backend = b)
    {policy : Policy} {items : List (Nat × Except RequestError Prepared)}
    {partition : String} {prepared : List Prepared}
    (way : e.route policy items = .deletes partition prepared)
    (plain : ∀ key, keys key → Plain b.kind key) {images : Images} {p after : Progress σ}
    (kept : shelf.kept p.store) (fetched : ran (e.fetch partition prepared) p = (.ok images, after))
    {i : Nat × Except RequestError Prepared} (member : i ∈ items) {item : Prepared}
    (same : i.2 = .ok item) {key : RecordKey} (addresses : Addresses b.kind keys item key) :
    e.Recalled shelf (some images) key := by
  subst backend
  obtain ⟨table, -, inside⟩ := route_deletes way
  have shared := inside i member item same
  rw [addresses.named] at shared
  intro found which r image
  cases which
  have tells := plain key addresses.inside
  rw [table] at tells
  cases key with
  | document id => cases shared
  | entity p' row =>
    cases shared
    have present := (EntityTable.keyOf_ok tells).1
    exact was_of_queryAll shelves rfl table present (fun ids member => Entity.mem_chunks member)
      kept (fun _ _ member => absurd member List.not_mem_nil) fetched row r (mem_of_lookup image)

theorem writes_of_atomic {policy : Policy} {items : List (Nat × Except RequestError Prepared)}
    {partition : String} {prepared : List Prepared}
    (way : e.route policy items = .atomic partition prepared) :
    ∀ item ∈ prepared, item.verb.isWrite = true := by
  rcases route_cases e policy items with
    other | ⟨_, _, -, -, ⟨same, -, -, -, writes⟩ | ⟨other, -⟩ | ⟨other, -⟩⟩
  · cases way.symm.trans other
  · cases way.symm.trans same
    exact List.all_eq_true.mp writes
  · cases way.symm.trans other
  · cases way.symm.trans other

theorem mem_of_allPrepared {items : List (Nat × Except RequestError Prepared)}
    {prepared : List Prepared} (all : allPrepared? items = some prepared) :
    ∀ item ∈ prepared, ∃ i ∈ items, i.2 = .ok item := by
  intro item member
  have inside : (.ok item : Except RequestError Prepared) ∈ items.map Prod.snd := by
    rw [outcomes_of_allPrepared all]
    exact List.mem_map_of_mem member
  exact List.mem_map.mp inside

theorem within_write {item : Prepared} {key : RecordKey} {kind : StoreKind}
    (addresses : Addresses kind keys item key) (write : item.verb.isWrite = true) :
    (e.write item).Within kind keys := by
  have named := addresses.named
  have own := addresses.own
  unfold Executor.write
  cases verb : item.verb with
  | create => exact ⟨key, own (by rw [verb]; rfl), addresses.inside⟩
  | replace =>
    simp only
    split <;> exact ⟨key, own (by rw [verb]; rfl), addresses.inside⟩
  | patch => exact ⟨key, own (by rw [verb]; rfl), addresses.inside⟩
  | delete =>
    simp only [named]
    exact addresses.inside
  | get =>
    rw [verb] at write
    cases write

theorem confined_submit (shelves : b.Shelves shelf) (backend : e.backend = b) {policy : Policy}
    {partition : String} {prepared : List Prepared}
    (within : ∀ item ∈ prepared, (e.write item).Within b.kind keys) {p : Progress σ}
    (kept : shelf.kept p.store) :
    shelf.Confined e.table keys p.store (ran (e.submit policy partition prepared) p).2.store := by
  subst backend
  have submitted : shelf.Confined e.table keys p.store
      (ran (e.backend.submitBatch e.table (prepared.map e.write)) p.store).2 := by
    refine shelves.submit kept fun w member => ?_
    obtain ⟨item, inside, rfl⟩ := List.mem_map.mp member
    exact within item inside
  rcases ended : ran (e.submit policy partition prepared) p with ⟨outcome, after⟩
  rcases submit_cases e shelves.query_same ended with
    ⟨-, -, same⟩ | ⟨-, fault, -, made⟩ | ⟨-, records, -, made, -⟩
  · rw [same]
    exact Shelf.confined_refl kept
  · rw [made] at submitted
    exact submitted
  · rw [made] at submitted
    exact submitted

theorem confined_conduct (shelves : b.Shelves shelf) (backend : e.backend = b) {ops : List Operation}
    (plain : ∀ key, keys key → Plain b.kind key)
    (each : ∀ i ∈ e.items ops, ∀ item, i.2 = .ok item → ∃ key, Addresses b.kind keys item key)
    (policy : Policy) {p : Progress σ} (kept : shelf.kept p.store) :
    shelf.Confined e.table keys p.store (ran (e.conduct policy ops) p).2.store := by
  have nothing : e.Undoable shelf keys ⟨.empty, .empty⟩ := nofun
  have committed {c : Running σ Run} {q : Progress σ}
      (confined : shelf.Confined e.table keys p.store (ran c q).2.store) :
      shelf.Confined e.table keys p.store (ran (c >>= commit) q).2.store :=
    ran_bind_keeps (P := fun q : Progress σ => shelf.Confined e.table keys p.store q.store)
      confined fun _ _ confined => confined
  have same : ∀ table q s, (ran (e.backend.query table q) s).2 = s := by
    rw [backend]
    exact shelves.query_same
  unfold conduct
  cases way : e.route policy (e.items ops) with
  | atomic partition prepared =>
    refine confined_submit shelves backend (fun item member => ?_) kept
    obtain ⟨i, inside, is⟩ := mem_of_allPrepared (route_atomic way) item member
    obtain ⟨key, addresses⟩ := each i inside item is
    exact within_write addresses (writes_of_atomic way item member)
  | reads partition prepared =>
    simp only
    rcases ran_fetch_cases e same partition prepared p with ⟨error, failed⟩ | ⟨found, fetched⟩
    · rw [ran_bind_error failed]
      exact Shelf.confined_refl kept
    · rw [ran_bind_ok fetched]
      exact committed (confined_answerAll shelves backend policy found nothing kept)
  | deletes partition prepared =>
    simp only
    rcases ran_fetch_cases e same partition prepared p with ⟨error, failed⟩ | ⟨images, fetched⟩
    · rw [ran_bind_error failed]
      exact Shelf.confined_refl kept
    · rw [ran_bind_ok fetched]
      refine committed (confined_sendAll shelves backend policy nothing ?_ kept)
      intro i member item is
      obtain ⟨key, addresses⟩ := each i member item is
      exact ⟨key, addresses,
        recalled_of_fetch shelves backend way plain kept fetched member is addresses⟩
  | oneByOne =>
    refine committed (confined_sendAll shelves backend policy nothing ?_ kept)
    intro i member item is
    obtain ⟨key, addresses⟩ := each i member item is
    exact ⟨key, addresses, nofun⟩

/-- A batch changes the records with the keys of its items at most, whether it succeeds or not and
whatever of it is undone. -/
theorem confined_execute (shelves : b.Shelves shelf) (backend : e.backend = b) {ops : List Operation}
    (plain : ∀ key, keys key → Plain b.kind key)
    (each : ∀ i ∈ e.items ops, ∀ item, i.2 = .ok item → ∃ key, Addresses b.kind keys item key)
    {p : Progress σ} (kept : shelf.kept p.store) :
    shelf.Confined e.table keys p.store (ran (e.execute ops) p).2.store := by
  cases ops with
  | nil => exact Shelf.confined_refl kept
  | cons first more =>
    rw [execute_cons]
    simp only
    split
    · exact Shelf.confined_refl kept
    · rw [ran_bind_ok (ran_enter _ p)]
      exact confined_conduct shelves backend plain each _ (p := { p with state := .collecting }) kept

theorem keyOf_congr {kind : StoreKind} {r r' : Record} (partition : Option String)
    (same : ∀ name ∈ kind.identifiers, r.get? name = r'.get? name) :
    kind.keyOf r partition = kind.keyOf r' partition := by
  cases kind with
  | table =>
    have first := same partitionKey (by decide)
    have second := same rowKey (by decide)
    simp only [StoreKind.keyOf, Record.keyText?, first, second]
  | document =>
    have only := same documentId (by decide)
    simp only [StoreKind.keyOf, Record.keyText?, only]

theorem keyOf_extend {kind : StoreKind} {key : RecordKey} (plain : Plain kind key) (r : Record) :
    kind.keyOf (r.extend key.toRecord) none = .ok key := by
  refine (keyOf_congr none fun name member => ?_).trans plain
  cases key with
  | entity partition row =>
    have said := Record.get?_extend_of_mem r (RecordKey.entity partition row).toRecord
      (show [partitionKey, rowKey].Nodup by decide)
    cases kind with
    | table =>
      rcases List.mem_cons.mp member with rfl | member
      · exact said _ List.mem_cons_self
      · cases List.mem_singleton.mp member
        exact said (rowKey, .string row) (List.mem_cons_of_mem _ List.mem_cons_self)
    | document =>
      have other : StoreKind.document.keyOf (RecordKey.entity partition row).toRecord none =
          .error .noId := rfl
      cases other.symm.trans plain
  | document id =>
    have said := Record.get?_extend_of_mem r (RecordKey.document id).toRecord
      (show [documentId].Nodup by decide)
    cases kind with
    | table =>
      have other : StoreKind.table.keyOf (RecordKey.document id).toRecord none =
          .error .noPartition := rfl
      cases other.symm.trans plain
    | document =>
      cases List.mem_singleton.mp member
      exact said _ List.mem_cons_self

theorem addresses_ofKeys {kind : StoreKind} {partition : Option String} {verb : Verb}
    {ks : List RecordKey} {record : Option Record} (plain : ∀ key ∈ ks, Plain kind key)
    {op : Operation} (member : op ∈ Operation.ofKeys verb ks record) {item : Prepared}
    (prepared : op.prepare kind partition = .ok item) :
    ∃ key, Addresses kind (· ∈ ks) item key := by
  obtain ⟨key?, keyed, rfl⟩ := prepare_cases prepared
  obtain ⟨⟨key, index⟩, inside, rfl⟩ := List.mem_map.mp member
  cases keyed
  have here : key ∈ ks := List.fst_mem_of_mem_zipIdx inside
  refine ⟨key, rfl, here, fun needs => ?_⟩
  have needs' : verb.needsRecord = true := needs
  change kind.keyOf (completed verb _ (some key)) none = .ok key
  rw [completed, if_pos needs']
  exact keyOf_extend (plain key here) _

end Executor

end StoreGateway

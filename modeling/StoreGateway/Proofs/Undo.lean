import StoreGateway.Proofs.Runs

/-! Stores that keep records by their keys, and what undoing a change takes there. -/

namespace StoreGateway

/-- The records of all tables by key, as they are read. -/
abbrev Contents := String → RecordKey → Option Record

namespace Contents

def set (c : Contents) (table : String) (key : RecordKey) (r : Option Record) : Contents :=
  fun t k => if t = table ∧ k = key then r else c t k

theorem set_set (c : Contents) (table : String) (key : RecordKey) (r r' : Option Record) :
    (c.set table key r).set table key r' = c.set table key r' := by
  funext t k
  by_cases here : t = table ∧ k = key <;> simp [set, here]

theorem set_same (c : Contents) (table : String) (key : RecordKey) :
    c.set table key (c table key) = c := by
  funext t k
  by_cases here : t = table ∧ k = key
  · simp [set, here]
  · simp [set, here]

theorem set_here (c : Contents) (table : String) (key : RecordKey) (r : Option Record) :
    c.set table key r table key = r := by
  simp [set]

theorem set_other (c : Contents) (table : String) {key other : RecordKey} (r : Option Record)
    (different : other ≠ key) : c.set table key r table other = c table other := by
  simp [set, different]

end Contents

variable {σ : Type}

/-- How a store is seen. -/
structure Keeping (σ : Type) where
  sound : σ → Prop
  view : σ → Contents
  /-- Records that the store takes. -/
  fits : Record → Prop
  /-- Keys that a record of a table can have. -/
  addresses : String → RecordKey → Prop
  /-- Keys that a deleted record can be inserted with again. -/
  returns : RecordKey → Prop
  /-- A record that is shown for a key, and what the store keeps of it. -/
  shows : RecordKey → Record → Record → Prop

namespace Keeping

def Unchanged (k : Keeping σ) (before after : σ) : Prop :=
  k.sound after ∧ k.view after = k.view before

/-- One record is another now, or is there no longer. -/
def Sets (k : Keeping σ) (table : String) (key : RecordKey) (r : Option Record)
    (before after : σ) : Prop :=
  k.sound after ∧ k.view after = (k.view before).set table key r

end Keeping

/-- The calls of a store by what they do to the records kept. -/
structure Backend.Keeps (b : Backend σ) (k : Keeping σ) : Prop where
  query_same : ∀ table q s, (ran (b.query table q) s).2 = s
  get_same : ∀ table key s, (ran (b.get table key) s).2 = s
  get_ok : ∀ {table key s prior}, k.sound s → (ran (b.get table key) s).1 = .ok prior →
    ∃ q, k.view s table key = some q ∧ k.shows key prior q
  get_missing : ∀ {table key s what}, k.sound s →
    (ran (b.get table key) s).1 = .error (.notFound what) → k.view s table key = none
  insert_ok : ∀ {table r s created s'}, k.sound s → k.fits r →
    ran (b.insert table r) s = (.ok created, s') →
    ∃ key q, b.kind.keyOf created none = .ok key ∧ k.view s table key = none ∧
      k.Sets table key (some q) s s'
  insert_error : ∀ {table r s fault s'}, k.sound s → k.fits r →
    ran (b.insert table r) s = (.error fault, s') → k.Unchanged s s'
  replace_ok : ∀ {table key r s shown s'}, k.sound s → k.fits r →
    ran (b.replace table key r) s = (.ok shown, s') →
    k.view s table key ≠ none ∧ ∃ q, k.Sets table key (some q) s s'
  replace_error : ∀ {table key r s fault s'}, k.sound s → k.fits r →
    ran (b.replace table key r) s = (.error fault, s') → k.Unchanged s s'
  upsert_ok : ∀ {table key r s shown s'}, k.sound s → k.fits r →
    ran (b.upsert table key r) s = (.ok shown, s') → ∃ q, k.Sets table key (some q) s s'
  upsert_error : ∀ {table key r s fault s'}, k.sound s → k.fits r →
    ran (b.upsert table key r) s = (.error fault, s') → k.Unchanged s s'
  merge_ok : ∀ {table key r s shown s'}, k.sound s → k.fits r →
    ran (b.merge table key r) s = (.ok shown, s') →
    k.view s table key ≠ none ∧ ∃ q, k.Sets table key (some q) s s'
  merge_error : ∀ {table key r s fault s'}, k.sound s → k.fits r →
    ran (b.merge table key r) s = (.error fault, s') → k.Unchanged s s'
  delete_ok : ∀ {table key s done s'}, k.sound s → ran (b.delete table key) s = (.ok done, s') →
    k.view s table key ≠ none ∧ k.Sets table key none s s'
  delete_error : ∀ {table key s fault s'}, k.sound s →
    ran (b.delete table key) s = (.error fault, s') → k.Unchanged s s'
  submit_ok : ∀ {table writes s records s'},
    ran (b.submitBatch table writes) s = (.ok records, s') → records.length = writes.length
  submit_error : ∀ {table writes s fault s'}, k.sound s →
    ran (b.submitBatch table writes) s = (.error fault, s') → k.Unchanged s s'
  addressed : ∀ {table key s}, k.sound s → k.view s table key ≠ none → k.addresses table key
  deletes : ∀ {table key s}, k.sound s → k.view s table key ≠ none →
    k.Sets table key none s (ran (b.delete table key) s).2
  upserts : ∀ {table key s prior q}, k.sound s → k.addresses table key → k.shows key prior q →
    k.Sets table key (some q) s (ran (b.upsert table key prior) s).2
  inserts : ∀ {table key s prior q}, k.sound s → k.addresses table key → k.returns key →
    k.shows key prior q → k.view s table key = none →
    k.Sets table key (some q) s (ran (b.insert table prior) s).2

namespace Keeping

variable (k : Keeping σ) (b : Backend σ) (table : String)

/-- Undoing the change gives the records before it back, whatever else the store has been through. -/
structure Undoes (u : UndoEntry) (before after : σ) : Prop where
  sound : k.sound after
  needed : u.isNeeded = true
  restores : ∀ s, k.sound s → k.view s = k.view after →
    k.Unchanged before (ran (u.undo b table) s).2

variable {k b table} {key : RecordKey} {before after : σ}

theorem Sets.undone {r : Option Record} (sets : k.Sets table key r before after) {s s' : σ}
    (same : k.view s = k.view after) (back : k.Sets table key (k.view before table key) s s') :
    k.Unchanged before s' := by
  refine ⟨back.1, ?_⟩
  rw [back.2, same, sets.2, Contents.set_set, Contents.set_same]

theorem Sets.here {r : Option Record} (sets : k.Sets table key r before after) {s : σ}
    (same : k.view s = k.view after) : k.view s table key = r := by
  rw [same, sets.2, Contents.set_here]

/-- A record that was not there is deleted again. -/
theorem undoes_new (keeps : b.Keeps k) {u : UndoEntry} {q : Record}
    (verb : u.verb = .create ∨ u.verb = .replace) (unknown : u.prior = none)
    (absent : k.view before table u.key = none) (sets : k.Sets table u.key (some q) before after) :
    k.Undoes b table u before after := by
  rcases u with ⟨verb', key, prior⟩
  cases unknown
  have undo : UndoEntry.undo ⟨verb', key, none⟩ b table = b.delete table key := by
    rcases verb with rfl | rfl <;> rfl
  have needed : UndoEntry.isNeeded ⟨verb', key, none⟩ = true := by
    rcases verb with rfl | rfl <;> rfl
  refine ⟨sets.1, needed, fun s sound same => ?_⟩
  have present : k.view s table key ≠ none := by
    rw [sets.here same]
    exact Option.some_ne_none q
  have back := keeps.deletes sound present
  rw [← absent] at back
  rw [undo]
  exact sets.undone same back

/-- A record that was there is written over the one in its place. -/
theorem undoes_changed (keeps : b.Keeps k) {u : UndoEntry} {prior q q' : Record}
    (verb : u.verb = .replace ∨ u.verb = .patch) (was : u.prior = some prior)
    (sound : k.sound before) (present : k.view before table u.key = some q)
    (shown : k.shows u.key prior q) (sets : k.Sets table u.key (some q') before after) :
    k.Undoes b table u before after := by
  rcases u with ⟨verb', key, prior'⟩
  cases was
  have undo (s : σ) : (ran (UndoEntry.undo ⟨verb', key, some prior⟩ b table) s).2 =
      (ran (b.upsert table key prior) s).2 := by
    have same : UndoEntry.undo ⟨verb', key, some prior⟩ b table =
        (do let _ ← b.upsert table key prior) := by
      rcases verb with rfl | rfl <;> rfl
    rw [same, ran_ignored]
  have needed : UndoEntry.isNeeded ⟨verb', key, some prior⟩ = true := by
    rcases verb with rfl | rfl <;> rfl
  refine ⟨sets.1, needed, fun s sound' same => ?_⟩
  have addresses : k.addresses table key := by
    apply keeps.addressed sound
    rw [present]
    exact Option.some_ne_none q
  have back := keeps.upserts sound' addresses shown
  rw [← present] at back
  rw [undo]
  exact sets.undone same back

/-- A record that was deleted is inserted again. -/
theorem undoes_deleted (keeps : b.Keeps k) {prior q : Record} (sound : k.sound before)
    (present : k.view before table key = some q) (shown : k.shows key prior q)
    (returns : k.returns key) (sets : k.Sets table key none before after) :
    k.Undoes b table ⟨.delete, key, some prior⟩ before after := by
  have undo (s : σ) : (ran (UndoEntry.undo ⟨.delete, key, some prior⟩ b table) s).2 =
      (ran (b.insert table prior) s).2 :=
    ran_ignored _ s
  refine ⟨sets.1, rfl, fun s sound' same => ?_⟩
  have addresses : k.addresses table key := by
    apply keeps.addressed sound
    rw [present]
    exact Option.some_ne_none q
  have back := keeps.inserts sound' addresses returns shown (sets.here same)
  rw [← present] at back
  rw [undo]
  exact sets.undone same back

/-- Undoing all entries of a log, newest first, gives the records of an earlier state back. -/
structure Restores (k : Keeping σ) (b : Backend σ) (table : String) (log : UndoLog)
    (start now : σ) : Prop where
  sound : k.sound now
  restores : ∀ s, k.sound s → k.view s = k.view now →
    k.Unchanged start ((UndoLog.compensate b table log.entries).run s).2

theorem restores_start {start : σ} (sound : k.sound start) :
    k.Restores b table .empty start start :=
  ⟨sound, fun _ sound' same => ⟨sound', same⟩⟩

theorem Restores.unchanged {log : UndoLog} {start now later : σ}
    (restores : k.Restores b table log start now) (unchanged : k.Unchanged now later) :
    k.Restores b table log start later :=
  ⟨unchanged.1, fun s sound same => restores.restores s sound (same.trans unchanged.2)⟩

theorem Restores.record {log : UndoLog} {start now later : σ} {u : UndoEntry}
    (restores : k.Restores b table log start now) (undoes : k.Undoes b table u now later) :
    k.Restores b table (log.record u) start later := by
  refine ⟨undoes.sound, fun s sound same => ?_⟩
  have first := undoes.restores s sound same
  have rest := restores.restores _ first.1 first.2
  have run : ((UndoLog.compensate b table (log.record u).entries).run s).2 =
      ((UndoLog.compensate b table log.entries).run (ran (u.undo b table) s).2).2 := by
    change ((UndoLog.compensate b table (u :: log.entries)).run s).2 = _
    rw [UndoLog.compensate, if_pos undoes.needed]
    rfl
  rw [run]
  exact rest

end Keeping

end StoreGateway

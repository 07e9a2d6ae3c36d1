import StoreGateway.Proofs.AtomicBatches
import StoreGateway.Proofs.DocumentAnswers
import StoreGateway.Proofs.StoredRecords

/-! Keys, identifiers and timestamps are the store's own, whatever the records say that it is given. -/

namespace StoreGateway

variable {σ : Type}

/-- A call that may change a store. -/
inductive Change where
  | insert (r : Record)
  | replace (key : RecordKey) (r : Record)
  | upsert (key : RecordKey) (r : Record)
  | merge (key : RecordKey) (r : Record)
  | delete (key : RecordKey)
  | batch (writes : List Write)

namespace Change

/-- The call, with the records that it answers with. -/
def call (b : Backend σ) (table : String) : Change → Call σ (List Record)
  | insert r => do return [← b.insert table r]
  | replace key r => do return [← b.replace table key r]
  | upsert key r => do return [← b.upsert table key r]
  | merge key r => do return [← b.merge table key r]
  | delete key => do
    b.delete table key
    return []
  | batch writes => b.submitBatch table writes

/-- The key of the one record that a change is for. An insertion takes it from the record, and may
make one up. -/
def key? (kind : StoreKind) : Change → Option RecordKey
  | insert r => (kind.keyOf r none).toOption
  | replace key _ | upsert key _ | merge key _ | delete key => some key
  | batch _ => none

end Change

/-- All records that a write brings are as asked. -/
def Write.Brings (asked : Record → Prop) : Write → Prop
  | .insert r | .replace r | .upsert r | .merge r => asked r
  | .delete _ => True

def Change.Brings (asked : Record → Prop) : Change → Prop
  | .insert r | .replace _ r | .upsert _ r | .merge _ r => asked r
  | .delete _ => True
  | .batch writes => ∀ w ∈ writes, w.Brings asked

theorem Change.brings_any (change : Change) : change.Brings fun _ => True := by
  cases change with
  | batch writes =>
    intro w _
    cases w <;> trivial
  | _ => trivial

theorem ran_single {ε : Type} (c : ExceptT ε (StateM σ) Record) (s : σ) :
    ran (do return [← c]) s = ((ran c s).1.map fun r => [r], (ran c s).2) := by
  rw [ran_bind]
  rcases ran c s with ⟨outcome, after⟩
  cases outcome <;> rfl

theorem ran_silent {ε : Type} (c : ExceptT ε (StateM σ) Unit) (s : σ) :
    ran (do c; return ([] : List Record)) s = ((ran c s).1.map fun _ => [], (ran c s).2) := by
  rw [ran_bind]
  rcases ran c s with ⟨outcome, after⟩
  cases outcome <;> rfl

def Backend.after (b : Backend σ) (s : σ) (changes : List (String × Change)) : σ :=
  changes.foldl (fun s (table, change) => (ran (change.call b table) s).2) s

theorem Backend.after_keeps {b : Backend σ} {P : σ → Prop} {asked : Record → Prop}
    (keeps : ∀ table (change : Change) s, change.Brings asked → P s →
      P (ran (change.call b table) s).2)
    {changes : List (String × Change)} (brought : ∀ c ∈ changes, c.2.Brings asked) {s : σ}
    (holds : P s) : P (b.after s changes) := by
  induction changes generalizing s with
  | nil => exact holds
  | cons first rest ih =>
    obtain ⟨here, later⟩ := List.forall_mem_cons.mp brought
    exact ih later (keeps first.1 first.2 s here holds)

/-- A stamp that was given out between two states of a supply. -/
def Supply.Gave (before after : Supply) (text : String) : Prop :=
  ∃ now, before.now ≤ now ∧ now < after.now ∧ text = stampText now

theorem Supply.Gave.mono {before after later : Supply} {text : String} (gave : before.Gave after text)
    (passed : after.now ≤ later.now) : before.Gave later text := by
  obtain ⟨now, from_, until_, is⟩ := gave
  exact ⟨now, from_, Nat.lt_of_lt_of_le until_ passed, is⟩

namespace Entity

/-- A record of an entity, with its keys and its timestamp. -/
structure ShownBy (e : Entity) (r : Record) : Prop where
  partition : r.get? partitionKey = some (.string e.partition)
  row : r.get? rowKey = some (.string e.row)
  timestamp : r.get? StoreGateway.timestamp = some (.string e.timestamp)

theorem isProperty_iff {name : String} : isProperty name = true ↔
    name ≠ partitionKey ∧ name ≠ rowKey ∧ name ≠ StoreGateway.timestamp := by
  simp [isProperty, and_assoc]

theorem shownBy_record (e : Entity) {q : Record} (own : ∀ m ∈ q, isProperty m.1 = true) :
    e.ShownBy (e.record q) := by
  obtain ⟨partition, row⟩ := get?_record e own
  refine ⟨partition, row, ?_⟩
  have absent : ∀ m ∈ q, m.1 ≠ StoreGateway.timestamp := fun m member =>
    (isProperty_iff.mp (own m member)).2.2
  rw [record, Record.get?_extend_of_not_mem _ _ _ absent]
  rfl

theorem shownBy_read {e : Entity} (own : ∀ m ∈ e.properties, isProperty m.1 = true) {r : Record}
    (read : e.read = .ok r) : e.ShownBy r := by
  obtain ⟨q, own', rfl⟩ := EntityTable.record_of_read read own
  exact shownBy_record e own'

end Entity

namespace EntityTable

variable {t : EntityTable} {start : Supply} {table partition row : String}

/-- A table in the order of its keys, with stamps that were given out since a start. -/
structure Genuine (start : Supply) (t : EntityTable) : Prop where
  keyed : t.Keyed
  later : start.now ≤ t.supply.now
  stamped : ∀ e ∈ t.entities, start.Gave t.supply e.timestamp

theorem genuine_empty (maxBatch : Nat) (supply : Supply) : Genuine supply (empty maxBatch supply) :=
  ⟨keyed_empty maxBatch supply, Nat.le_refl _, nofun⟩

theorem write_cases (mode : WriteMode) (table partition row : String) (r : Record) :
    (∃ fault, ran (write mode table partition row r) t = (.error fault, t)) ∨
      ∃ properties, (∀ m ∈ properties, Entity.isProperty m.1 = true) ∧
        let e : Entity := ⟨table, partition, row, properties, t.supply.stamp.1⟩
        ran (write mode table partition row r) t = (.ok (e.record properties),
          { t with entities := place e t.entities, supply := t.supply.stamp.2 }) := by
  rw [ran_write_eq]
  cases outcome : (ran (load table partition row) t).1 >>= fun existing =>
      written mode partition row existing r with
  | error fault => exact .inl ⟨fault, rfl⟩
  | ok properties => exact .inr ⟨properties, own_of_load outcome, rfl⟩

theorem mem_place_self (e : Entity) (es : List Entity) : e ∈ place e es := by
  induction es with
  | nil => exact List.mem_singleton_self e
  | cons f rest ih =>
    rw [place]
    split
    · exact List.mem_cons_self
    · split
      · exact List.mem_cons_self
      · exact List.mem_cons_of_mem f ih

/-- What writes and deletions of single entities keep true of a table. -/
structure Steady (P : EntityTable → Prop) (asked : Record → Prop) : Prop where
  write : ∀ {t : EntityTable} {r : Record} (mode : WriteMode) (table partition row : String),
    asked r → P t → P (ran (write mode table partition row r) t).2
  remove : ∀ {t : EntityTable} (table partition row : String), P t →
    P (ran (EntityTable.remove table partition row) t).2

namespace Steady

variable {P : EntityTable → Prop} {asked : Record → Prop} (steady : Steady P asked)
include steady

theorem writeOwn {r : Record} (fits : asked r) (holds : P t) (mode : WriteMode) (table : String) :
    P (ran (writeOwn mode table r) t).2 := by
  rw [ran_writeOwn]
  cases ownKey r with
  | error fault => exact holds
  | ok parts => exact steady.write mode table parts.1 parts.2 fits holds

theorem writeAt {r : Record} (fits : asked r) (holds : P t) (mode : WriteMode) (table : String)
    (key : RecordKey) : P (ran (writeAt mode table key r) t).2 := by
  cases key with
  | document id => exact holds
  | entity partition row => exact steady.write mode table partition row fits holds

theorem delete (holds : P t) (table : String) (key : RecordKey) :
    P (ran (backend.delete table key) t).2 := by
  cases key with
  | document id => exact holds
  | entity partition row => exact steady.remove table partition row holds

theorem apply {w : Write} (brought : w.Brings asked) (holds : P t) (table : String) :
    P (ran (apply table w) t).2 := by
  cases w with
  | insert r => exact steady.writeOwn brought holds .insert table
  | replace r => exact steady.writeOwn brought holds .replace table
  | upsert r => exact steady.writeOwn brought holds .upsert table
  | merge r => exact steady.writeOwn brought holds .merge table
  | delete key =>
    cases key with
    | document id => exact holds
    | entity partition row =>
      change P (ran (EntityTable.remove table partition row >>= _) t).2
      exact ran_bind_keeps (steady.remove table partition row holds) fun _ _ holds => holds

theorem applyAll {writes : List Write} (brought : ∀ w ∈ writes, w.Brings asked) (holds : P t)
    (table : String) (index : Nat) : P (ran (applyAll table index writes) t).2 := by
  -- by induction on the operations; each is applied to what the ones before it left
  induction writes generalizing t index with
  | nil => exact holds
  | cons w rest ih =>
    obtain ⟨here, later⟩ := List.forall_mem_cons.mp brought
    rw [EntityTable.applyAll]
    refine ran_bind_keeps ?_ fun r t' holds' => ?_
    · exact ran_tryCatch_keeps (steady.apply here holds table) fun _ _ holds => holds
    · exact ran_bind_keeps (ih later holds' (index + 1)) fun _ _ holds => holds

theorem submit {writes : List Write} (brought : ∀ w ∈ writes, w.Brings asked) (holds : P t)
    (table : String) : P (ran (submit table writes) t).2 := by
  rcases ran_submit (t := t) table writes with ⟨fault, run⟩ | ⟨records, after, applied, run⟩
  · rw [run]
    exact holds
  · have all := steady.applyAll brought holds table 0
    rw [applied] at all
    rw [run]
    exact all

theorem call (table : String) (change : Change) (t : EntityTable) (brought : change.Brings asked)
    (holds : P t) : P (ran (change.call backend table) t).2 := by
  cases change with
  | insert r =>
    rw [Change.call, ran_single]
    exact steady.writeOwn brought holds .insert table
  | replace key r =>
    rw [Change.call, ran_single]
    exact steady.writeAt brought holds .replace table key
  | upsert key r =>
    rw [Change.call, ran_single]
    exact steady.writeAt brought holds .upsert table key
  | merge key r =>
    rw [Change.call, ran_single]
    exact steady.writeAt brought holds .merge table key
  | delete key =>
    rw [Change.call, ran_silent]
    exact steady.delete holds table key
  | batch writes => exact steady.submit brought holds table

end Steady

theorem genuine_write (genuine : t.Genuine start) (mode : WriteMode)
    (table partition row : String) (r : Record) :
    (ran (write mode table partition row r) t).2.Genuine start := by
  rcases write_cases (t := t) mode table partition row r with ⟨fault, refused⟩ | ⟨q, own, wrote⟩
  · rw [refused]
    exact genuine
  · rw [wrote]
    have passes : t.supply.now < t.supply.stamp.2.now := Nat.lt_add_of_pos_right (by decide)
    refine ⟨genuine.keyed.place own _, Nat.le_trans genuine.later (Nat.le_of_lt passes), ?_⟩
    intro e member
    rcases mem_place member with rfl | inside
    · exact ⟨t.supply.now, genuine.later, passes, rfl⟩
    · exact (genuine.stamped e inside).mono (Nat.le_of_lt passes)

theorem genuine_remove (genuine : t.Genuine start) (table partition row : String) :
    (ran (EntityTable.remove table partition row) t).2.Genuine start := by
  have keyed := genuine.keyed.remove table partition row
  rw [EntityTable.remove, ran_bind_ok (ran_get t)] at keyed ⊢
  cases found : t.find? table partition row with
  | none => exact genuine
  | some e =>
    rw [found] at keyed
    exact ⟨keyed, genuine.later, fun f member => genuine.stamped f (List.mem_filter.mp member).1⟩

theorem genuine_steady (start : Supply) : Steady (Genuine start) fun _ => True :=
  ⟨fun mode table partition row _ genuine => genuine_write genuine mode table partition row _,
    fun table partition row genuine => genuine_remove genuine table partition row⟩

/-- There is an entity of a table that a record shows. -/
def Keeps (t : EntityTable) (table : String) (key : RecordKey → Prop) (r : Record) : Prop :=
  ∃ e ∈ t.entities, e.table = table ∧ key (.entity e.partition e.row) ∧ e.ShownBy r

theorem keeps_write {mode : WriteMode} {r shown : Record}
    (wrote : (ran (write mode table partition row r) t).1 = .ok shown) :
    (ran (write mode table partition row r) t).2.Keeps table (· = .entity partition row) shown := by
  rcases write_cases (t := t) mode table partition row r with ⟨fault, refused⟩ | ⟨q, own, done⟩
  · rw [refused] at wrote
    cases wrote
  · rw [done] at wrote ⊢
    cases wrote
    exact ⟨_, mem_place_self _ _, rfl, rfl, Entity.shownBy_record _ own⟩

theorem keeps_writeOwn {mode : WriteMode} {r shown : Record}
    (wrote : (ran (writeOwn mode table r) t).1 = .ok shown) :
    (ran (writeOwn mode table r) t).2.Keeps table
      (fun key => StoreKind.table.keyOf r none = .ok key) shown := by
  rw [ran_writeOwn] at wrote ⊢
  cases owned : ownKey r with
  | error fault =>
    rw [owned] at wrote
    cases wrote
  | ok parts =>
    obtain ⟨partition, row⟩ := parts
    rw [owned] at wrote
    obtain ⟨e, member, here, key, shows⟩ := keeps_write wrote
    exact ⟨e, member, here, by rw [keyOf_of_ownKey owned, key], shows⟩

theorem keeps_writeAt {mode : WriteMode} {key : RecordKey} {r shown : Record}
    (wrote : (ran (writeAt mode table key r) t).1 = .ok shown) :
    (ran (writeAt mode table key r) t).2.Keeps table (· = key) shown := by
  cases key with
  | document id => cases wrote
  | entity partition row => exact keeps_write wrote

theorem keeps_apply {w : Write} {r : Record} (applied : (ran (apply table w) t).1 = .ok r) :
    (∃ key, w = .delete key ∧ r = key.toRecord) ∨
      (ran (apply table w) t).2.Keeps table (fun _ => True) r := by
  have own {mode : WriteMode} {payload : Record}
      (wrote : (ran (writeOwn mode table payload) t).1 = .ok r) :
      (ran (writeOwn mode table payload) t).2.Keeps table (fun _ => True) r := by
    obtain ⟨e, member, here, -, shows⟩ := keeps_writeOwn wrote
    exact ⟨e, member, here, trivial, shows⟩
  cases w with
  | insert payload => exact .inr (own applied)
  | replace payload => exact .inr (own applied)
  | upsert payload => exact .inr (own applied)
  | merge payload => exact .inr (own applied)
  | delete key =>
    refine .inl ⟨key, rfl, ?_⟩
    cases key with
    | document id => cases applied
    | entity partition row =>
      change (ran (EntityTable.remove table partition row >>= _) t).1 = _ at applied
      rw [ran_bind] at applied
      split at applied
      · cases applied
        rfl
      · cases applied

theorem applyAll_cons {index : Nat} {w : Write} {rest : List Write} {records : List Record}
    {after : EntityTable} (run : ran (applyAll table index (w :: rest)) t = (.ok records, after)) :
    ∃ r more t', records = r :: more ∧ ran (apply table w) t = (.ok r, t') ∧
      ran (applyAll table (index + 1) rest) t' = (.ok more, after) := by
  rw [applyAll, ran_bind, ran_tryCatch] at run
  rcases first : ran (apply table w) t with ⟨_ | r, t'⟩
  · rw [first] at run
    cases run
  · rw [first] at run
    change ran (applyAll table (index + 1) rest >>= _) t' = _ at run
    rcases others : ran (applyAll table (index + 1) rest) t' with ⟨_ | more, last⟩
    · rw [ran_bind_error others] at run
      cases run
    · rw [ran_bind_ok others] at run
      cases run
      exact ⟨r, more, t', rfl, rfl, others⟩

theorem ran_applyAll_cons {index : Nat} {w : Write} {rest : List Write} {r : Record}
    {more : List Record} {t' after : EntityTable} (first : ran (apply table w) t = (.ok r, t'))
    (others : ran (applyAll table (index + 1) rest) t' = (.ok more, after)) :
    ran (applyAll table index (w :: rest)) t = (.ok (r :: more), after) := by
  have caught : ran (tryCatch (apply table w) fun fault => throw (.batch index fault)) t =
      (.ok r, t') := by
    rw [ran_tryCatch, first]
  rw [applyAll, ran_bind_ok caught, ran_bind_ok others]
  rfl

theorem keeps_applyAll {index : Nat} {writes : List Write} {records : List Record}
    {after : EntityTable} (run : ran (applyAll table index writes) t = (.ok records, after))
    {i : Nat} {w : Write} {r : Record} (operation : writes[i]? = some w)
    (answer : records[i]? = some r) :
    (∃ key, w = .delete key ∧ r = key.toRecord) ∨ ∃ answers upTo,
      ran (applyAll table index (writes.take (i + 1))) t = (.ok answers, upTo) ∧
        upTo.Keeps table (fun _ => True) r := by
  induction writes generalizing t index records i with
  | nil => cases operation
  | cons first rest ih =>
    obtain ⟨r', more, t', rfl, applied, others⟩ := applyAll_cons run
    cases i with
    | zero =>
      cases operation
      cases answer
      rcases keeps_apply (congrArg Prod.fst applied) with deleted | kept
      · exact .inl deleted
      · rw [applied] at kept
        exact .inr ⟨[r], t', ran_applyAll_cons applied rfl, kept⟩
    | succ i =>
      rcases ih others operation answer with deleted | ⟨answers, upTo, done, kept⟩
      · exact .inl deleted
      · exact .inr ⟨r' :: answers, upTo, ran_applyAll_cons applied done, kept⟩

theorem samePartition_take {writes : List Write} (together : samePartition writes = true) (n : Nat) :
    samePartition (writes.take n) = true := by
  cases writes with
  | nil => rw [List.take_nil]; rfl
  | cons first rest =>
    cases n with
    | zero => rfl
    | succ n =>
      rw [samePartition, List.all_eq_true] at together
      rw [List.take_succ_cons, samePartition, List.all_eq_true]
      exact fun w member => together w (List.mem_of_mem_take member)

theorem fits_of_submit {writes : List Write} {records : List Record} {after : EntityTable}
    (run : ran (submit table writes) t = (.ok records, after)) :
    writes.length ≤ t.maxBatch ∧ samePartition writes = true := by
  rw [submit, ran_bind_ok (ran_get t)] at run
  by_cases long : t.maxBatch < writes.length
  · rw [if_pos long] at run
    cases run
  · rw [if_neg long] at run
    refine ⟨Nat.le_of_not_lt long, ?_⟩
    cases together : samePartition writes with
    | true => rfl
    | false =>
      rw [together] at run
      cases run

theorem keeps_submit {writes : List Write} {records : List Record}
    (run : (ran (submit table writes) t).1 = .ok records) {i : Nat} {w : Write} {r : Record}
    (operation : writes[i]? = some w) (answer : records[i]? = some r) :
    (∃ key, w = .delete key ∧ r = key.toRecord) ∨
      (ran (submit table (writes.take (i + 1))) t).2.Keeps table (fun _ => True) r := by
  rcases ran_submit (t := t) table writes with ⟨fault, failed⟩ | ⟨records', after, applied, done⟩
  · rw [failed] at run
    cases run
  · obtain ⟨few, together⟩ := fits_of_submit done
    rw [done] at run
    cases run
    rcases keeps_applyAll applied operation answer with deleted | ⟨answers, upTo, made, kept⟩
    · exact .inl deleted
    · refine .inr ?_
      have fewer : (writes.take (i + 1)).length ≤ t.maxBatch :=
        Nat.le_trans (List.length_take_le' _ _) few
      rw [ran_submit_together table fewer (samePartition_take together (i + 1)), made]
      exact kept

/-- What a change answers with are entities that are kept under their keys, each as of its place in
a batch, and the bare keys of those that a batch deletes. -/
structure Answers (t : EntityTable) (table : String) (change : Change) (records : List Record) :
    Prop where
  single : (∀ writes, change ≠ .batch writes) → ∀ r ∈ records,
    (ran (change.call backend table) t).2.Keeps table (change.key? .table = some ·) r
  batch : ∀ writes, change = .batch writes → records.length = writes.length ∧
    ∀ (i : Nat) w r, writes[i]? = some w → records[i]? = some r →
      (∃ key, w = .delete key ∧ r = key.toRecord) ∨
        (ran ((Change.batch (writes.take (i + 1))).call backend table) t).2.Keeps table
          (fun _ => True) r

theorem answers_of_single {change : Change} {c : Call EntityTable Record} {records : List Record}
    (is : change.call backend table = do return [← c]) (one : ∀ writes, change ≠ .batch writes)
    (kept : ∀ r, (ran c t).1 = .ok r → (ran c t).2.Keeps table (change.key? .table = some ·) r)
    (answered : (ran (change.call backend table) t).1 = .ok records) :
    t.Answers table change records := by
  refine ⟨fun _ r member => ?_, fun writes batch => absurd batch (one writes)⟩
  rw [is, ran_single] at answered ⊢
  cases outcome : (ran c t).1 with
  | error fault =>
    rw [outcome] at answered
    cases answered
  | ok r' =>
    rw [outcome] at answered
    cases answered
    cases List.mem_singleton.mp member
    exact kept r outcome

theorem answers_call {change : Change} {records : List Record}
    (answered : (ran (change.call backend table) t).1 = .ok records) :
    t.Answers table change records := by
  have at_ {mode : WriteMode} {key : RecordKey} {payload : Record} (r : Record)
      (wrote : (ran (writeAt mode table key payload) t).1 = .ok r) :
      (ran (writeAt mode table key payload) t).2.Keeps table (some key = some ·) r := by
    obtain ⟨e, member, here, rfl, shows⟩ := keeps_writeAt wrote
    exact ⟨e, member, here, rfl, shows⟩
  cases change with
  | insert payload =>
    refine answers_of_single rfl nofun (fun r wrote => ?_) answered
    obtain ⟨e, member, here, key, shows⟩ := keeps_writeOwn wrote
    exact ⟨e, member, here, congrArg Except.toOption key, shows⟩
  | replace key payload => exact answers_of_single rfl nofun at_ answered
  | upsert key payload => exact answers_of_single rfl nofun at_ answered
  | merge key payload => exact answers_of_single rfl nofun at_ answered
  | delete key =>
    rw [Change.call, ran_silent] at answered
    cases outcome : (ran (backend.delete table key) t).1 with
    | error fault =>
      rw [outcome] at answered
      cases answered
    | ok done =>
      rw [outcome] at answered
      cases answered
      exact ⟨fun _ => nofun, nofun⟩
  | batch writes =>
    refine ⟨fun single => absurd rfl (single writes), fun writes' same => ?_⟩
    cases same
    exact ⟨submit_ok (Prod.ext answered rfl), fun i w r => keeps_submit answered⟩

/-- What a table keeps and shows is under keys that callers ask for, and with stamps of its own. -/
structure Unforged (start : Supply) (t : EntityTable) : Prop where
  own : ∀ e ∈ t.entities, ∀ m ∈ e.properties,
    m.1 ≠ partitionKey ∧ m.1 ≠ rowKey ∧ m.1 ≠ timestamp
  single : t.entities.Pairwise fun e f =>
    ¬ (e.table = f.table ∧ e.partition = f.partition ∧ e.row = f.row)
  stamped : ∀ e ∈ t.entities, start.Gave t.supply e.timestamp
  got : ∀ table key r, (ran (backend.get table key) t).1 = .ok r → t.Keeps table (· = key) r
  queried : ∀ table q records, (ran (backend.query table q) t).1 = .ok records →
    (∀ r ∈ records, t.Keeps table (fun _ => True) r) ∧ (records.map Record.keys).Nodup
  answered : ∀ table change records, (ran (Change.call backend table change) t).1 = .ok records →
    t.Answers table change records

theorem keeps_of_get (keyed : t.Keyed) {key : RecordKey} {r : Record}
    (got : (ran (backend.get table key) t).1 = .ok r) : t.Keeps table (· = key) r := by
  cases key with
  | document id => cases got
  | entity partition row =>
    rw [ran_get_entity, load, ran_bind_ok (ran_get t)] at got
    cases found : t.find? table partition row with
    | none =>
      rw [found] at got
      cases got
    | some e =>
      have shelved : shelf.find t table (.entity partition row) = some e := found
      obtain ⟨inside, here, key⟩ := found_cases shelved
      simp only [found] at got
      cases read : e.read with
      | error fault =>
        rw [read] at got
        cases got
      | ok r' =>
        rw [read] at got
        cases got
        exact ⟨e, inside, here, key.symm, Entity.shownBy_read (keyed.own e inside) read⟩

theorem keeps_of_query (keyed : t.Keyed) {q : NativeQuery} {records : List Record}
    (queried : (ran (query table q) t).1 = .ok records) :
    ∀ r ∈ records, t.Keeps table (fun _ => True) r := by
  obtain ⟨-, filter, -, selected⟩ := query_cases (Prod.ext queried rfl)
  intro r member
  obtain ⟨e, inside, read, -⟩ := mem_select selected r member
  obtain ⟨there, here⟩ := List.mem_filter.mp inside
  exact ⟨e, there, eq_of_beq here, trivial, Entity.shownBy_read (keyed.own e there) read⟩

theorem Genuine.unforged (genuine : t.Genuine start) : t.Unforged start where
  own e member m inside := Entity.isProperty_iff.mp (genuine.keyed.own e member m inside)
  single := genuine.keyed.sorted.imp fun {e f} before same => by
    have apart := Entity.hasKey_of_precedes before
    rw [Entity.hasKey_iff.mpr ⟨same.1.symm, same.2.1.symm, same.2.2.symm⟩] at apart
    cases apart
  stamped := genuine.stamped
  got _ _ _ := keeps_of_get genuine.keyed
  queried _ _ _ run := ⟨keeps_of_query genuine.keyed run,
    nodup_query genuine.keyed (Prod.ext run rfl)⟩
  answered _ _ _ := answers_call

end EntityTable

end StoreGateway

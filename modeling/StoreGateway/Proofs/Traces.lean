import StoreGateway.Proofs.Runs

/-!
Stores that write down what they are asked for and how each call ends, for any store. What undoing
asks for does not depend on what is answered to it.
-/

namespace StoreGateway

open Running

variable {σ α : Type}

/-- What a store is asked for. -/
inductive Asked where
  | query (table : String) (q : NativeQuery)
  | count (table : String) (q : NativeQuery)
  | get (table : String) (key : RecordKey)
  | insert (table : String) (r : Record)
  | replace (table : String) (key : RecordKey) (r : Record)
  | upsert (table : String) (key : RecordKey) (r : Record)
  | merge (table : String) (key : RecordKey) (r : Record)
  | delete (table : String) (key : RecordKey)
  | batch (table : String) (writes : List Write)

/-- What a store answers with where a call does not fail. -/
inductive Answered where
  | records (rs : List Record)
  | count (n : Nat)
  | record (r : Record)
  | done

structure Event where
  asked : Asked
  answer : Except StoreFault Answered

/-- A store and the calls that it was asked for, the oldest first. -/
structure Traced (σ : Type) where
  store : σ
  events : List Event

namespace Traced

/-- Makes a call and writes it down with how it ended. -/
def note (asked : Asked) (answer : α → Answered) (call : Call σ α) : Call (Traced σ) α :=
  ExceptT.mk fun t =>
    let (outcome, store) := ran call t.store
    (outcome, ⟨store, t.events ++ [⟨asked, outcome.map answer⟩]⟩)

def backend (b : Backend σ) : Backend (Traced σ) where
  kind := b.kind
  atomicBatches := b.atomicBatches
  query table q := note (.query table q) .records (b.query table q)
  count table q := note (.count table q) .count (b.count table q)
  get table key := note (.get table key) .record (b.get table key)
  insert table r := note (.insert table r) .record (b.insert table r)
  replace table key r := note (.replace table key r) .record (b.replace table key r)
  upsert table key r := note (.upsert table key r) .record (b.upsert table key r)
  merge table key r := note (.merge table key r) .record (b.merge table key r)
  delete table key := note (.delete table key) (fun _ => .done) (b.delete table key)
  submitBatch table writes := note (.batch table writes) .records (b.submitBatch table writes)

theorem ran_note (asked : Asked) (answer : α → Answered) (call : Call σ α) (t : Traced σ) :
    ran (note asked answer call) t = ((ran call t.store).1,
      ⟨(ran call t.store).2, t.events ++ [⟨asked, (ran call t.store).1.map answer⟩]⟩) := rfl

end Traced

/-- The progress once the store is another and has written some calls down. -/
def Progress.noting (p : Progress (Traced σ)) (s : σ) (its : List Event) : Progress (Traced σ) :=
  ⟨⟨s, p.store.events ++ its⟩, p.state⟩

namespace Progress

variable (p : Progress (Traced σ)) (s : σ)

theorem noting_nothing : p.noting p.store.store [] = p := by
  unfold noting
  rw [List.append_nil]

theorem noting_noting (s' : σ) (its more : List Event) :
    (p.noting s its).noting s' more = p.noting s' (its ++ more) := by
  unfold noting
  rw [List.append_assoc]

end Progress

namespace Running

variable {asked : Asked} {answer : α → Answered} {call : Call σ α} {p : Progress (Traced σ)} {s : σ}

theorem call_note {outcome : Except StoreFault α} (made : ran call p.store.store = (outcome, s)) :
    ran (Running.call (Traced.note asked answer call)) p =
      (.ok outcome, p.noting s [⟨asked, outcome.map answer⟩]) := by
  rw [ran_call, Traced.ran_note, made]
  rfl

/-- A call that ends the batch if it fails. -/
theorem perform_note_cases (asked : Asked) (answer : α → Answered) (call : Call σ α)
    (p : Progress (Traced σ)) :
    (∃ a s, ran call p.store.store = (.ok a, s) ∧ ran (perform (Traced.note asked answer call)) p =
        (.ok a, p.noting s [⟨asked, .ok (answer a)⟩])) ∨
      ∃ fault s, ran (perform (Traced.note asked answer call)) p =
        (.error (.ofStore fault), p.noting s [⟨asked, .error fault⟩]) := by
  rcases made : ran call p.store.store with ⟨outcome, s⟩
  rw [perform, ran_bind_ok (call_note made)]
  cases outcome with
  | ok a => exact .inl ⟨a, s, rfl, rfl⟩
  | error fault => exact .inr ⟨fault, s, rfl⟩

end Running

/-- What is asked for to undo a change. -/
def UndoEntry.asked (table : String) (u : UndoEntry) : Asked :=
  match u.verb, u.prior with
  | .create, _ => .delete table u.key
  | .delete, some prior => .insert table prior
  | _, some prior => .upsert table u.key prior
  | _, none => .delete table u.key

namespace Traced

theorem undo_events (b : Backend σ) (table : String) {u : UndoEntry} (needed : u.isNeeded = true)
    (t : Traced σ) : ∃ answer, (ran (u.undo (backend b) table) t).2.events =
      t.events ++ [⟨u.asked table, answer⟩] := by
  obtain ⟨verb, key, prior⟩ := u
  have ignored (asked : Asked) (call : Call σ Record) : ∃ answer,
      (ran (do let _ ← note asked .record call : Call (Traced σ) Unit) t).2.events =
        t.events ++ [⟨asked, answer⟩] := by
    rw [ran_ignored, ran_note]
    exact ⟨_, rfl⟩
  cases verb with
  | create => exact ⟨_, rfl⟩
  | replace | patch =>
    cases prior with
    | none => exact ⟨_, rfl⟩
    | some prior => exact ignored _ (b.upsert table key prior)
  | delete =>
    cases prior with
    | none => cases needed
    | some prior => exact ignored _ (b.insert table prior)
  | get => cases needed

/-- Every entry is undone in its turn, whatever becomes of those before it. -/
theorem compensate_events (b : Backend σ) (table : String) {entries : List UndoEntry}
    (needed : ∀ u ∈ entries, u.isNeeded = true) (t : Traced σ) :
    ∃ undo, ((UndoLog.compensate (backend b) table entries).run t).2.events = t.events ++ undo ∧
      undo.map Event.asked = entries.map (UndoEntry.asked table) := by
  -- the induction is on the entries, from any store
  induction entries generalizing t with
  | nil => exact ⟨[], (List.append_nil _).symm, rfl⟩
  | cons u rest ih =>
    have here := needed u List.mem_cons_self
    obtain ⟨answer, first⟩ := undo_events b table here t
    obtain ⟨undo, others, asked⟩ := ih (fun v member => needed v (List.mem_cons_of_mem u member))
      (ran (u.undo (backend b) table) t).2
    refine ⟨⟨u.asked table, answer⟩ :: undo, ?_, ?_⟩
    · rw [UndoLog.compensate, if_pos here, List.append_cons, ← first]
      exact others
    · rw [List.map_cons, List.map_cons, asked]

end Traced

end StoreGateway

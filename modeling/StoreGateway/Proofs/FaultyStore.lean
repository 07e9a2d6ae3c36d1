import StoreGateway.Proofs.Undo

/-! A store whose write calls may fail before they reach it. -/

namespace StoreGateway

/-- A store, and for each of the next write calls the fault that it fails with, if it is to fail. -/
structure Faulty (σ : Type) where
  store : σ
  plan : List (Option StoreFault)

namespace Faulty

variable {σ α : Type}

/-- A call that changes nothing is made. -/
def read (call : Call σ α) : Call (Faulty σ) α := ExceptT.mk fun f =>
  let (outcome, store) := ran call f.store
  (outcome, { f with store := store })

/-- A call that may change something is made, or fails as the plan has it. -/
def write (call : Call σ α) : Call (Faulty σ) α := ExceptT.mk fun f =>
  match f.plan with
  | some fault :: rest => (.error fault, { f with plan := rest })
  | plan =>
    let (outcome, store) := ran call f.store
    (outcome, ⟨store, plan.tail⟩)

def backend (b : Backend σ) : Backend (Faulty σ) where
  kind := b.kind
  atomicBatches := b.atomicBatches
  query table q := read (b.query table q)
  count table q := read (b.count table q)
  get table key := read (b.get table key)
  insert table r := write (b.insert table r)
  replace table key r := write (b.replace table key r)
  upsert table key r := write (b.upsert table key r)
  merge table key r := write (b.merge table key r)
  delete table key := write (b.delete table key)
  submitBatch table writes := write (b.submitBatch table writes)

def Spared (f : Faulty σ) : Prop := ∀ fault ∈ f.plan, fault = none

theorem ran_read (call : Call σ α) (f : Faulty σ) :
    ran (read call) f = ((ran call f.store).1, { f with store := (ran call f.store).2 }) := rfl

theorem ran_write (call : Call σ α) (f : Faulty σ) :
    (∃ fault, (ran (write call) f).1 = .error fault ∧ (ran (write call) f).2.store = f.store) ∨
      ((ran (write call) f).1 = (ran call f.store).1 ∧
        (ran (write call) f).2.store = (ran call f.store).2) := by
  rcases f with ⟨store, plan⟩
  match plan with
  | some fault :: rest => exact .inl ⟨fault, rfl, rfl⟩
  | none :: rest => exact .inr ⟨rfl, rfl⟩
  | [] => exact .inr ⟨rfl, rfl⟩

theorem Spared.ran_write {f : Faulty σ} (spared : f.Spared) (call : Call σ α) :
    (ran (write call) f).1 = (ran call f.store).1 ∧
      (ran (write call) f).2.store = (ran call f.store).2 ∧ (ran (write call) f).2.Spared := by
  rcases f with ⟨store, plan⟩
  match plan, spared with
  | some fault :: rest, spared => cases spared (some fault) List.mem_cons_self
  | none :: rest, spared =>
    exact ⟨rfl, rfl, fun fault member => spared fault (List.mem_cons_of_mem none member)⟩
  | [], spared => exact ⟨rfl, rfl, spared⟩

theorem Spared.undo {f : Faulty σ} (spared : f.Spared) (b : Backend σ) (table : String)
    (u : UndoEntry) :
    (ran (u.undo (backend b) table) f).2.store = (ran (u.undo b table) f.store).2 ∧
      (ran (u.undo (backend b) table) f).2.Spared := by
  rcases u with ⟨verb, key, prior⟩
  have ignored {call : Call σ Record} :
      (ran (do let _ ← write call : Call (Faulty σ) Unit) f).2.store =
        (ran (do let _ ← call : Call σ Unit) f.store).2 ∧
      (ran (do let _ ← write call : Call (Faulty σ) Unit) f).2.Spared := by
    rw [ran_ignored, ran_ignored]
    exact (spared.ran_write call).2
  cases verb with
  | create => exact (spared.ran_write (b.delete table key)).2
  | get => cases prior <;> exact ⟨rfl, spared⟩
  | replace | patch =>
    cases prior with
    | none => exact (spared.ran_write (b.delete table key)).2
    | some prior => exact ignored
  | delete =>
    cases prior with
    | none => exact ⟨rfl, spared⟩
    | some prior => exact ignored

/-- Once no call is to fail any more, undoing does what it does without faults. -/
theorem Spared.compensate {f : Faulty σ} (spared : f.Spared) (b : Backend σ) (table : String)
    (entries : List UndoEntry) :
    ((UndoLog.compensate (backend b) table entries).run f).2.store =
      ((UndoLog.compensate b table entries).run f.store).2 := by
  induction entries generalizing f with
  | nil => rfl
  | cons u rest ih =>
    by_cases needed : u.isNeeded = true
    · have undone := spared.undo b table u
      have others := ih undone.2
      rw [undone.1] at others
      rw [UndoLog.compensate, UndoLog.compensate, if_pos needed, if_pos needed]
      exact others
    · rw [UndoLog.compensate, UndoLog.compensate, if_neg needed, if_neg needed]
      exact ih spared

end Faulty

end StoreGateway

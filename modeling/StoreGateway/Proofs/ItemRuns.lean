import StoreGateway.Proofs.AllOrNothing
import StoreGateway.Proofs.FailedCalls

/-!
Batches that undo nothing, item by item. What such a batch answers with follows from how its items
end one after the other: it goes on past failures, or stops at the first of them.
-/

namespace StoreGateway

open Running

variable {σ : Type}

/-- How an item of a batch ended, and the store after it. -/
structure Step (σ : Type) where
  index : Nat
  outcome : Except RequestError Record
  store : σ

namespace BatchResult

end BatchResult

namespace Step

def failed (step : Step σ) : Bool := step.outcome.toOption.isNone

/-- What an answer shows of an item. -/
def said (step : Step σ) : Outcome :=
  match step.outcome with
  | .ok r => .record r
  | .error error => .failed error.message

end Step

namespace BatchResult

end BatchResult

namespace Policy

variable {policy : Policy}

end Policy

namespace Executor

variable {e : Executor σ}

theorem state_perform {α : Type} (call : Call σ α) (p : Progress σ) :
    (ran (perform call) p).2.state = p.state := by
  rw [ran_perform]
  rcases ran call p.store with ⟨_ | _, after⟩ <;> rfl

/-- How an item ends that is sent to a store, and the store after it. -/
def attempted (e : Executor σ) (images : Option Images) (item : Except RequestError Prepared)
    (s : σ) : Except RequestError Record × σ :=
  match item with
  | .error error => (.error error, s)
  | .ok item =>
    let (outcome, p) := ran (e.send false images item) ⟨s, .collecting⟩
    (outcome.map fun answer => e.clean answer.1, p.store)

/-- How items end that are sent to a store one after the other. -/
def each (e : Executor σ) (images : Option Images) :
    List (Nat × Except RequestError Prepared) → σ → List (Step σ)
  | [], _ => []
  | (index, item) :: rest, s =>
    let (outcome, after) := e.attempted images item s
    ⟨index, outcome, after⟩ :: e.each images rest after

end Executor

end StoreGateway

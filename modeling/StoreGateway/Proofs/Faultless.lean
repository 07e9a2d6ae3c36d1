import StoreGateway.Proofs.Views

/-!
A store of which no call is to fail. Main statement: items are sent to it as they are sent to the
store itself, so what is known of batches on faulty stores holds of batches on plain ones.
-/

namespace StoreGateway

open Running

variable {σ α : Type}

/-- The same progress on a store of which no call is to fail. -/
def Progress.faultless (p : Progress σ) : Progress (Faulty σ) := ⟨⟨p.store, []⟩, p.state⟩

namespace Running

/-- Ends on a faultless store as on the store itself. -/
def Mirrors (c : Running σ α) (c' : Running (Faulty σ) α) : Prop :=
  ∀ p, ran c' p.faultless = ((ran c p).1, (ran c p).2.faultless)

end Running

namespace Executor

def faulty (e : Executor σ) : Executor (Faulty σ) :=
  ⟨Faulty.backend e.backend, e.table, e.options, e.upsertAllowed, e.maxBatch, e.maxIds⟩

theorem mirrors_sendUntil (e : Executor σ) (images : Option Images)
    (items : List (Nat × Except RequestError Prepared)) (run : Run) :
    Mirrors (e.sendUntil images run items) (e.faulty.sendUntil images run items) := by
  have sees : e.Sees (fun s => (⟨s, []⟩ : Faulty σ)) e.faulty :=
    ⟨⟨rfl, fun _ _ _ => rfl, fun _ _ _ => rfl, fun _ _ _ => rfl, fun _ _ _ _ => rfl,
      fun _ _ _ _ => rfl, fun _ _ _ _ => rfl, fun _ _ _ => rfl, fun _ _ _ => rfl⟩,
      rfl, rfl, rfl, rfl⟩
  exact sees_sendUntil sees images items run

end Executor

end StoreGateway

import StoreGateway.Proofs.StoredRecords

/-!
Calls that fail. Neither store changes what it keeps when a call for one record fails, so an item of
a batch that fails leaves all records as they were.
-/

namespace StoreGateway

variable {σ ρ ε ε' α β : Type}

namespace Shelf

variable {shelf : Shelf σ ρ} {table : String} {keys : RecordKey → Prop} {s s' s'' : σ}

/-- All is as it was. -/
structure Unmoved (shelf : Shelf σ ρ) (before after : σ) : Prop where
  kept : shelf.kept after
  same : ∀ name key, shelf.find after name key = shelf.find before name key

theorem Unmoved.trans (first : shelf.Unmoved s s') (second : shelf.Unmoved s' s'') :
    shelf.Unmoved s s'' :=
  ⟨second.kept, fun name key => (second.same name key).trans (first.same name key)⟩

theorem Confined.unmoved (confined : shelf.Confined table (fun _ => False) s s') :
    shelf.Unmoved s s' :=
  ⟨confined.kept, fun name key => confined.same name key And.right⟩

/-- A call keeps up what every call does, and changes no record unless it succeeds. -/
structure Spares (shelf : Shelf σ ρ) (before : σ) (ended : Except ε α × σ) : Prop where
  kept : shelf.kept ended.2
  failed : ∀ {fault}, ended.1 = .error fault → shelf.Unmoved before ended.2

theorem Unmoved.spares (unmoved : shelf.Unmoved s s') (outcome : Except ε α) :
    shelf.Spares s (outcome, s') :=
  ⟨unmoved.kept, fun _ => unmoved⟩

theorem spares_ok (shelf : Shelf σ ρ) (kept : shelf.kept s') (a : α) :
    shelf.Spares s ((.ok a, s') : Except ε α × σ) :=
  ⟨kept, fun same => by cases same⟩

theorem before (shelf : Shelf σ ρ) {c : ExceptT ε (StateM σ) α} {next : α → ExceptT ε (StateM σ) β}
    (first : shelf.Unmoved s (ran c s).2)
    (rest : ∀ a after, ran c s = (.ok a, after) → shelf.Spares after (ran (next a) after)) :
    shelf.Spares s (ran (c >>= next) s) := by
  rcases run : ran c s with ⟨outcome, after⟩
  rw [run] at first
  cases outcome with
  | error fault =>
    rw [ran_bind_error run]
    exact first.spares _
  | ok a =>
    have ended := rest a after run
    rw [ran_bind_ok run]
    exact ⟨ended.kept, fun fault => first.trans (ended.failed fault)⟩

theorem Spares.after {c : ExceptT ε (StateM σ) α} {next : α → ExceptT ε (StateM σ) β}
    (spares : shelf.Spares s (ran c s)) (ends : ∀ a after, ∃ b, ran (next a) after = (.ok b, after)) :
    shelf.Spares s (ran (c >>= next) s) := by
  rcases run : ran c s with ⟨outcome, after⟩
  rw [run] at spares
  cases outcome with
  | error fault =>
    rw [ran_bind_error run]
    exact (spares.failed rfl).spares _
  | ok a =>
    obtain ⟨b, ended⟩ := ends a after
    rw [ran_bind_ok run, ended]
    exact shelf.spares_ok spares.kept b

end Shelf

namespace EntityTable

variable {t : EntityTable} {table partition row : String}

end EntityTable

namespace DocumentStore

variable {s : DocumentStore} {name id : String} {r : Record}

end DocumentStore

namespace Executor

open Running

variable {e : Executor σ} {b : Backend σ} {shelf : Shelf σ ρ}

def stored (ended : Except RequestError α × Progress σ) : Except RequestError α × σ :=
  (ended.1, ended.2.store)

end Executor

end StoreGateway

import StoreGateway.Proofs.Continuing
import StoreGateway.Proofs.LookedUpItems
import StoreGateway.Proofs.Rereading

/-!
A batch that undoes nothing is its items run one by one. Main statement: on either store, such a
batch answers with what its items answer with when each of them is a batch of its own, and leaves the
store as they do.
-/

namespace StoreGateway

open Running

variable {σ ρ : Type}

/-- How a batch of one item ended, and the store after it. -/
structure Single (σ : Type) where
  outcome : Except RequestError BatchResult
  store : σ

namespace Single

def failed (run : Single σ) : Bool := run.outcome.toOption.isNone

/-- The record that a batch of one item answered with, or the message of its failure. -/
def said (run : Single σ) : Option Outcome :=
  match run.outcome with
  | .ok result => result.outcome? 0
  | .error error => some (.failed error.message)

end Single

def Operation.alone (op : Operation) : Operation := { op with index := 0 }

namespace Executor

def alone (e : Executor σ) (op : Operation) (s : σ) : Single σ :=
  let (outcome, p) := ran (e.execute [op.alone]) ⟨s, .idle⟩
  ⟨outcome, p.store⟩

/-- Runs operations one after the other, each as a batch of its own. -/
def singles (e : Executor σ) : List Operation → σ → List (Single σ)
  | [], _ => []
  | op :: rest, s => e.alone op s :: e.singles rest (e.alone op s).store

end Executor

/-- What a table keeps is as texts have it that are read: numbers are of the format, and records are
nested no deeper than the reader goes. -/
def EntityTable.Formed (t : EntityTable) : Prop := ∀ e ∈ t.entities, Record.Formed e.properties

theorem EntityTable.Formed.readable {t : EntityTable} (formed : t.Formed) (table : String) :
    t.Readable table := by
  intro e member _
  obtain ⟨properties, read⟩ := Json.rereadRecord_formed (formed e member)
  exact ⟨e.record properties, by rw [Entity.read, read]⟩

namespace Executor

variable {e : Executor σ}

end Executor

/-- The batch of a single item that ended like this. -/
def Step.single (step : Step σ) : Single σ :=
  ⟨step.outcome.map (BatchResult.empty.record 0), step.store⟩

namespace Executor

def committed : Except RequestError Run × Progress σ → Except RequestError BatchResult × Progress σ
  | (.ok run, p) => (.ok run.result, { p with state := .committed })
  | (.error error, p) => (.error error, p)

theorem present_of_prepared {kind : StoreKind} {partition : Option String} {op : Operation}
    {item : Prepared} (present : ∀ row, op.key ≠ some (.entity "" row))
    (prepared : op.prepare kind partition = .ok item) (row : String) :
    item.key ≠ some (.entity "" row) := by
  obtain ⟨key, keyed, rfl⟩ := prepare_cases prepared
  change key ≠ _
  rintro rfl
  unfold Operation.keyFor at keyed
  cases given : op.key with
  | some key =>
    rw [given] at keyed
    cases keyed
    exact present row given
  | none =>
    rw [given] at keyed
    simp only at keyed
    split at keyed
    · next key own =>
      cases keyed
      cases kind with
      | document =>
        simp only [StoreKind.keyOf] at own
        split at own <;> cases own
      | table =>
        simp only [StoreKind.keyOf] at own
        split at own
        · cases own
        · next p found =>
          split at own
          · cases own
          · cases own
            have some := (Option.filter_eq_some_iff.mp found).2
            simp at some
    · split at keyed <;> cases keyed

end Executor

namespace Executor

/-- The operations of a batch that could all be prepared, in one partition. -/
structure Gathered (e : Executor σ) (ops : List Operation) (partition : String)
    (prepared : List Prepared) : Prop where
  whole : e.items ops = prepared.map fun item => (item.index, .ok item)
  source : ∀ item ∈ prepared, ∃ op ∈ ops,
    op.prepare e.backend.kind e.options.partition = .ok item
  named : ∀ item ∈ prepared, ∃ row, item.key = some (.entity partition row)

namespace Gathered

variable {e : Executor σ} {ops : List Operation} {partition : String} {prepared : List Prepared}

theorem of_shared (all : allPrepared? (e.items ops) = some prepared)
    (shared : Prepared.sharedPartition? prepared = some partition) :
    e.Gathered ops partition prepared := by
  refine ⟨items_of_allPrepared all fun i member item same => ?_, fun item member => ?_,
    fun item member => ?_⟩
  · obtain ⟨op, -, rfl⟩ := List.mem_map.mp member
    exact index_prepare same
  · obtain ⟨i, inside, same⟩ := mem_of_allPrepared all item member
    obtain ⟨op, from_ops, rfl⟩ := List.mem_map.mp inside
    exact ⟨op, from_ops, same⟩
  · obtain ⟨key, is, within⟩ := Option.bind_eq_some_iff.mp (partition_of_shared shared item member)
    cases key with
    | document id => cases within
    | entity first row =>
      cases within
      exact ⟨row, is⟩

theorem verbs (gathered : e.Gathered ops partition prepared) {verb : Verb}
    (verbs : ∀ op ∈ ops, op.verb = verb) : ∀ item ∈ prepared, item.verb = verb := by
  intro item member
  obtain ⟨op, inside, same⟩ := gathered.source item member
  obtain ⟨key, -, rfl⟩ := prepare_cases same
  exact verbs op inside

theorem nonempty (gathered : e.Gathered ops partition prepared) (any : prepared ≠ [])
    (present : ∀ op ∈ ops, ∀ row, op.key ≠ some (.entity "" row)) : partition ≠ "" := by
  obtain ⟨item, rest, rfl⟩ := List.exists_cons_of_ne_nil any
  obtain ⟨op, inside, same⟩ := gathered.source item List.mem_cons_self
  obtain ⟨row, key⟩ := gathered.named item List.mem_cons_self
  rintro rfl
  exact present_of_prepared (present op inside) same row key

end Gathered

theorem ne_nil_of_shared {prepared : List Prepared} {partition : String}
    (shared : Prepared.sharedPartition? prepared = some partition) : prepared ≠ [] := by
  rintro rfl
  cases shared

variable {e : Executor EntityTable} {t : EntityTable}

end Executor

namespace Step

variable {done rest : List (Step σ)} {step : Step σ}

end Step

namespace BatchResult

variable {steps : List (Step σ)}

end BatchResult

namespace Executor

/-- Operations of one verb, made from records, or from keys of which none names the empty
partition. -/
structure Made (verb : Verb) (ops : List Operation) : Prop where
  several : 2 ≤ ops.length
  made : (∃ records, ops = Operation.ofRecords verb records) ∨
    ∃ keys record, ops = Operation.ofKeys verb keys record ∧ ∀ row, .entity "" row ∉ keys

theorem Made.counted {verb : Verb} {ops : List Operation} (made : Made verb ops) :
    ops.map Operation.index = List.range' 0 ops.length := by
  rcases made.made with ⟨records, rfl⟩ | ⟨keys, record, rfl, -⟩
  · exact Operation.indices_ofRecords verb records
  · exact Operation.indices_ofKeys verb keys record

theorem Made.verbs {verb : Verb} {ops : List Operation} (made : Made verb ops) :
    ∀ op ∈ ops, op.verb = verb := by
  intro op member
  rcases made.made with ⟨records, rfl⟩ | ⟨keys, record, rfl, -⟩
  · exact (Operation.mem_ofRecords member).1
  · exact (Operation.mem_ofKeys member).1

theorem Made.present {verb : Verb} {ops : List Operation} (made : Made verb ops) :
    ∀ op ∈ ops, ∀ row, op.key ≠ some (.entity "" row) := by
  intro op member row named
  rcases made.made with ⟨records, rfl⟩ | ⟨keys, record, rfl, none⟩
  · rw [(Operation.mem_ofRecords member).2] at named
    cases named
  · obtain ⟨-, -, key, among, keyed⟩ := Operation.mem_ofKeys member
    rw [keyed] at named
    cases named
    exact none row among

variable {e : Executor σ} {b : Backend σ} {shelf : Shelf σ ρ} {s : σ}

end Executor

end StoreGateway

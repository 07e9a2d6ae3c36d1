import StoreGateway.Proofs.GuardedRequests

/-! A change by identifiers or by filter leaves every record that it is not for as it was, whatever
it writes and however it ends. -/

namespace StoreGateway

/-- The stores that keep their records themselves. -/
inductive Shelved : {σ ρ : Type} → Backend σ → Shelf σ ρ → Prop
  | entities : Shelved EntityTable.backend EntityTable.shelf
  | documents : Shelved DocumentStore.backend DocumentStore.shelf

theorem Shelved.shelves {σ ρ : Type} {b : Backend σ} {shelf : Shelf σ ρ}
    (shelved : Shelved b shelf) : b.Shelves shelf := by
  cases shelved with
  | entities => exact EntityTable.shelves
  | documents => exact DocumentStore.shelves

namespace Gateway

variable {σ ρ : Type} {g : Gateway σ} {shelf : Shelf σ ρ} {table : String} {o : RequestOptions}
  {s : σ}

theorem retrieve_same (shelved : Shelved g.backend shelf) (o : RequestOptions) (s : σ) :
    (ran (g.retrieve table o) s).2 = s := by
  obtain ⟨backend, schemas, limits, partition, upsert, filters⟩ := g
  cases shelved with
  | entities => exact retrieve_entities_same rfl o s
  | documents => exact retrieve_documents_same rfl o s

/-- The keys that a change by identifiers is for; there are none if it is refused. -/
def Asked (g : Gateway σ) (ids : List String) (o : RequestOptions) (key : RecordKey) : Prop :=
  ∃ keys, g.keysFor ids o = .ok keys ∧ key ∈ keys

theorem partition_ne_empty (partition : g.defaultPartition ≠ some "") {p : String}
    (chosen : g.partition o = some p) : p ≠ "" := by
  rintro rfl
  unfold Gateway.partition at chosen
  cases kind : g.kind with
  | document =>
    rw [kind] at chosen
    cases chosen
  | table =>
    rw [kind] at chosen
    rcases Option.or_eq_some_iff.mp chosen with own | ⟨-, default⟩
    · have present := (Option.filter_eq_some_iff.mp own).2
      simp at present
    · exact partition default

theorem plain_of_keysFor (partition : g.defaultPartition ≠ some "") {ids : List String}
    {keys : List RecordKey} (asked : g.keysFor ids o = .ok keys) :
    ∀ key ∈ keys, Executor.Plain g.kind key := by
  unfold keysFor at asked
  split at asked
  · cases asked
  · split at asked
    · cases asked
    · next none_blank =>
      have present {id : String} (member : id ∈ ids) : Text.trim id ≠ "" := fun blank =>
        none_blank (List.any_eq_true.mpr ⟨id, member, decide_eq_true blank⟩)
      cases kind : g.kind with
      | document =>
        rw [kind] at asked
        cases asked
        intro key member
        obtain ⟨id, inside, rfl⟩ := List.mem_map.mp member
        exact plain_document (present inside)
      | table =>
        rw [kind] at asked
        cases chosen : g.partition o with
        | none =>
          simp only [chosen] at asked
          cases asked
        | some p =>
          simp only [chosen] at asked
          cases asked
          intro key member
          obtain ⟨id, inside, rfl⟩ := List.mem_map.mp member
          exact plain_entity (partition_ne_empty partition chosen) (present inside)

theorem confined_mutateIds (shelves : g.backend.Shelves shelf) (kept : shelf.kept s)
    (partition : g.defaultPartition ≠ some "") (verb : Verb) (ids : List String)
    (record : Option Record) :
    shelf.Confined table (g.Asked ids o) s (ran (g.mutateIds table verb ids record o) s).2 := by
  change shelf.Confined _ _ s (ran (liftM (g.keysFor ids o) >>= _) s).2
  rw [ran_bind, ran_lift]
  cases asked : g.keysFor ids o with
  | error error => exact Shelf.confined_refl kept
  | ok keys =>
    have confined : shelf.Confined table (· ∈ keys) s
        (ran ((g.executor table o .idsOnly).execute (Operation.ofKeys verb keys record))
          ⟨s, .idle⟩).2.store :=
      confined_ofKeys shelves kept (plain_of_keysFor partition asked) verb record o
    rw [← store_run] at confined
    exact confined.mono fun key member => ⟨keys, asked, member⟩

/-- The keys of the records that the lookup of a change by filter shows. -/
def Found (g : Gateway σ) (table : String) (o : RequestOptions) (s : σ) (key : RecordKey) : Prop :=
  ∃ e, (ran (g.retrieve table (forKeys o)) s).1 = .ok e ∧
    ∃ v ∈ e.resource, ∃ r, v.object? = some r ∧ g.kind.keyOf r none = .ok key

theorem found_of_keysOfShown {e : Envelope} {keys : List RecordKey}
    (retrieved : (ran (g.retrieve table (forKeys o)) s).1 = .ok e)
    (shown : g.keysOfShown e.resource = .ok keys) : ∀ key ∈ keys, g.Found table o s key :=
  fun _ member => ⟨e, retrieved, mem_keysOfShown shown member⟩

theorem confined_found (shelves : g.backend.Shelves shelf) (kept : shelf.kept s)
    (same : (ran (g.retrieve table (forKeys o)) s).2 = s) (verb : Verb) (record : Option Record) :
    shelf.Confined table (g.Found table o s) s (ran (g.mutateFilter table verb record o) s).2 := by
  obtain ⟨keys, confined, read⟩ := confined_mutateFilter shelves kept verb record same
  refine confined.mono fun key member => ?_
  obtain ⟨e, retrieved, shown⟩ := read (List.ne_nil_of_mem member)
  exact found_of_keysOfShown retrieved shown key member

/-- Changes leave what they are not for as it was. -/
structure Addressing (g : Gateway σ) (shelf : Shelf σ ρ) (table : String) (verb : Verb)
    (record : Option Record) (o : RequestOptions) (s : σ) : Prop where
  byIds : ∀ ids name key, ¬ (name = table ∧ g.Asked ids o key) →
    shelf.find (ran (g.mutateIds table verb ids record o) s).2 name key = shelf.find s name key
  byFilter : ∀ name key, ¬ (name = table ∧ g.Found table o s key) →
    shelf.find (ran (g.mutateFilter table verb record o) s).2 name key = shelf.find s name key

/-- Whatever is written with which options, and whether all of it is done, some or none, and what
of it is undone: only what was asked for, or what the filter finds, is ever touched. -/
theorem changes_addressed (shelved : Shelved g.backend shelf)
    (partition : g.defaultPartition ≠ some "") (kept : shelf.kept s) (verb : Verb)
    (record : Option Record) (o : RequestOptions) :
    g.Addressing shelf table verb record o s where
  byIds ids := (confined_mutateIds shelved.shelves kept partition verb ids record).same
  byFilter :=
    (confined_found shelved.shelves kept (retrieve_same shelved (forKeys o) s) verb record).same

def foreign : Record := [(partitionKey, .string "Q"), (rowKey, .string "b"), ("v", .int 9)]

/-- Replacing an entity and one that is not there, as a whole: the entity is put back, and the one
that the record names is left alone. A merge by filter that writes over the names of documents. -/
theorem changes_addressed_of_foreign :
    let g := (Gateway.new EntityTable.backend).withDefaultPartition (some "P")
    let whole := { RequestOptions.none with rollback := true }
    (ran (g.mutateIds "t" .replace ["a", "x"] (some foreign) whole) twoOwnersTable).1.isOk = false ∧
      EntityTable.shelf.find
          (ran (g.mutateIds "t" .replace ["a", "x"] (some foreign) whole) twoOwnersTable).2
          "t" (.entity "P" "b") =
        EntityTable.shelf.find twoOwnersTable "t" (.entity "P" "b") ∧
      (Gateway.new DocumentStore.backend).Addressing DocumentStore.shelf "t" .patch
        (some [("id", .string "b"), ("v", .int 9)]) atLeastOne twoOwners := by
  refine ⟨by decide +kernel, ?_, ?_⟩
  · refine (changes_addressed (g := (Gateway.new EntityTable.backend).withDefaultPartition (some "P"))
      .entities (by decide) keyed_twoOwnersTable .replace (some foreign)
      { RequestOptions.none with rollback := true }).byIds _ "t" _ ?_
    rintro ⟨-, keys, asked, member⟩
    have keys' : keys = [.entity "P" "a", .entity "P" "x"] :=
      (Except.ok.inj (asked.symm.trans rfl))
    subst keys'
    simp at member
  · exact changes_addressed (g := Gateway.new DocumentStore.backend) .documents (by decide)
      keyed_twoOwners .patch _ _

end Gateway

end StoreGateway

import StoreGateway.Proofs.DocumentIdentities

/-!
Calls that the document store refuses. They leave all documents and all collections as they were, but
for one: an upsert makes the collection before it looks at the identifier, and an identifier that is
refused then leaves an empty collection behind.
-/

namespace StoreGateway

namespace DocumentStore

open DocumentFault (toStoreFault)

variable {ε α β : Type} {s : DocumentStore} {name : String}

/-- The collections stay as they are, unless a call succeeds or the file system fails. -/
def Leaves (seen : ε → StoreFault) (s : DocumentStore) (ended : Except ε α × DocumentStore) : Prop :=
  ∀ fault, ended.1 = .error fault → (∀ what, seen fault ≠ .io what) →
    ended.2.collections = s.collections

theorem leaves_ok (seen : ε → StoreFault) (s s' : DocumentStore) (a : α) :
    Leaves seen s ((.ok a, s') : Except ε α × DocumentStore) :=
  fun fault failed => by cases failed

theorem leaves_bind {seen : ε → StoreFault} {c : ExceptT ε (StateM DocumentStore) α}
    {next : α → ExceptT ε (StateM DocumentStore) β}
    (first : (ran c s).2.collections = s.collections)
    (rest : ∀ a after, ran c s = (.ok a, after) → Leaves seen after (ran (next a) after)) :
    Leaves seen s (ran (c >>= next) s) := by
  rcases run : ran c s with ⟨outcome, after⟩
  rw [run] at first
  cases outcome with
  | error fault =>
    rw [ran_bind_error run]
    exact fun _ _ _ => first
  | ok a =>
    rw [ran_bind_ok run]
    exact fun fault failed own => (rest a after run fault failed own).trans first

theorem Leaves.after {seen : ε → StoreFault} {c : ExceptT ε (StateM DocumentStore) α}
    {next : α → ExceptT ε (StateM DocumentStore) β} (leaves : Leaves seen s (ran c s))
    (ends : ∀ a after, ∃ b, ran (next a) after = (.ok b, after)) :
    Leaves seen s (ran (c >>= next) s) := by
  rcases run : ran c s with ⟨outcome, after⟩
  rw [run] at leaves
  cases outcome with
  | error fault =>
    rw [ran_bind_error run]
    exact fun other failed own => leaves other (by cases failed; rfl) own
  | ok a =>
    obtain ⟨b, ended⟩ := ends a after
    rw [ran_bind_ok run, ended]
    exact leaves_ok seen s after b

theorem leaves_keep {d : Document}
    (valid : ¬ maxNameBytes < name.utf8ByteSize → checkId d.id = .ok ()) :
    Leaves toStoreFault s (ran (do write name d; return d) s) := by
  have system {s' : DocumentStore} : Leaves toStoreFault s
      ((.error tooLong, s') : Except DocumentFault Document × DocumentStore) := by
    intro fault failed own
    cases failed
    exact absurd rfl (own _)
  rw [ran_bind, ran_write_eq]
  by_cases long : maxNameBytes < name.utf8ByteSize
  · rw [if_pos long]
    exact system
  · rw [if_neg long, valid long]
    by_cases long_id : maxNameBytes < (d.id ++ ".json").utf8ByteSize
    · simp only [if_pos long_id]
      exact system
    · simp only [if_neg long_id]
      exact leaves_ok _ s _ _

theorem leaves_insert (name : String) (r : Record) (s : DocumentStore) :
    Leaves toStoreFault s (ran (insert name r) s) := by
  rcases ran_insert_cases name r s with ⟨fault, refused⟩ | ⟨valid, -, same⟩
  · rw [refused]
    exact fun _ _ _ => rfl
  · rw [same]
    exact leaves_keep (s := { s with supply := _ }) fun _ => valid

theorem leaves_upsert {id : String}
    (valid : ¬ maxNameBytes < name.utf8ByteSize → checkId id = .ok ()) (r : Record)
    (s : DocumentStore) : Leaves toStoreFault s (ran (upsert name id r) s) := by
  rw [upsert, ran_bind_ok ran_stamp]
  exact leaves_keep (s := { s with supply := _ }) valid

theorem leaves_replace (name id : String) (r : Record) (s : DocumentStore) :
    Leaves toStoreFault s (ran (replace name id r) s) := by
  rcases ran_replace_cases name id r s with ⟨fault, refused⟩ | ⟨d, valid, -, same⟩
  · rw [refused]
    exact fun _ _ _ => rfl
  · rw [same]
    exact leaves_upsert (fun _ => valid) r s

theorem leaves_delete (name id : String) (s : DocumentStore) :
    Leaves toStoreFault s (ran (delete name id) s) := by
  rcases ran_delete_cases name id s with ⟨fault, refused, -⟩ | ⟨d, -, -, deleted⟩
  · rw [refused]
    exact fun _ _ _ => rfl
  · rw [deleted]
    exact leaves_ok _ s _ _

theorem valid_of_find {id : String} {d : Document} (found : (ran (find name id) s).1 = .ok d) :
    checkId id = .ok () := by
  rcases ran_find_cases name id s with ⟨fault, failed, -⟩ | ⟨e, d', valid, -, -, -⟩
  · rw [failed] at found
    cases found
  · exact valid

theorem leaves_merge (name id : String) (r : Record) (s : DocumentStore) :
    Leaves toStoreFault s (ran (merge name id r) s) := by
  rw [merge]
  refine leaves_bind (congrArg collections (ran_find_same name id s)) fun d after run => ?_
  have found := congrArg Prod.fst run
  obtain ⟨e, there, read⟩ := find_ok found
  have is : d.id = id := (reread_ok read).1.trans (by simpa using List.find?_some there)
  rw [ran_bind_ok ran_stamp]
  refine leaves_keep (s := { after with supply := _ }) fun _ => ?_
  rw [Document.merge_id, is]
  exact valid_of_find found

theorem leaves_named {call : DocumentCall α}
    (leaves : checkName name = .ok () → Leaves toStoreFault s (ran call s)) :
    Leaves id s (ran (named name call) s) := by
  rw [ran_named]
  cases valid : checkName name with
  | error fault => exact fun _ _ _ => rfl
  | ok done =>
    intro fault failed own
    cases outcome : (ran call s).1 with
    | error inner =>
      rw [outcome] at failed
      cases failed
      exact leaves valid inner outcome own
    | ok a =>
      rw [outcome] at failed
      cases failed

theorem leaves_keyed (key : RecordKey) {call : String → DocumentCall Document}
    (leaves : ∀ id, key = .document id → checkName name = .ok () →
      Leaves toStoreFault s (ran (call id) s)) :
    Leaves id s (ran (keyed name key call) s) := by
  cases key with
  | entity partition row => exact fun _ _ _ => rfl
  | document id => exact (leaves_named (leaves id rfl)).after fun d after => ⟨d.toRecord, rfl⟩

/-- An upsert under an identifier that is not valid, where there can be a collection of the name. -/
structure Misplaced (name : String) (change : Change) : Prop where
  valid_name : checkName name = .ok ()
  short_name : ¬ maxNameBytes < name.utf8ByteSize
  invalid_id : ∃ id r, change = .upsert (.document id) r ∧ checkId id ≠ .ok ()

theorem leaves_call {change : Change} (placed : ¬ Misplaced name change) :
    Leaves id s (ran (change.call backend name) s) := by
  have single {c : Call DocumentStore Record} (leaves : Leaves id s (ran c s)) :
      Leaves id s (ran (do return [← c]) s) :=
    leaves.after fun r after => ⟨[r], rfl⟩
  cases change with
  | insert r =>
    have inserted : Leaves id s (ran (named name (insert name r)) s) :=
      leaves_named fun _ => leaves_insert name r s
    exact single (inserted.after fun d after => ⟨d.toRecord, rfl⟩)
  | replace key r => exact single (leaves_keyed key fun id _ _ => leaves_replace name id r s)
  | upsert key r =>
    refine single (leaves_keyed key fun id same valid => leaves_upsert (fun short => ?_) r s)
    cases checked : checkId id with
    | ok done => rfl
    | error fault =>
      have invalid : checkId id ≠ .ok () := by
        rw [checked]
        exact fun same => by cases same
      exact absurd ⟨valid, short, id, r, by rw [same], invalid⟩ placed
  | merge key r => exact single (leaves_keyed key fun id _ _ => leaves_merge name id r s)
  | delete key =>
    have deleted : Leaves id s (ran (backend.delete name key) s) := by
      cases key with
      | entity partition row => exact fun _ _ _ => rfl
      | document id => exact leaves_named fun _ => leaves_delete name id s
    exact deleted.after fun _ after => ⟨[], rfl⟩
  | batch writes => exact fun _ _ _ => rfl

theorem ran_write_invalid {d : Document} {fault : DocumentFault}
    (short : ¬ maxNameBytes < name.utf8ByteSize) (invalid : checkId d.id = .error fault) :
    ran (write name d) s = (.error fault, touched name s) := by
  rw [ran_write_eq, if_neg short, invalid]

theorem collections_of_misplaced {change : Change} (misplaced : Misplaced name change)
    (s : DocumentStore) : (ran (change.call backend name) s).2.collections =
      updateIn name id s.collections := by
  obtain ⟨valid, short, docId, r, rfl, invalid⟩ := misplaced
  cases checked : checkId docId with
  | ok done => exact absurd checked invalid
  | error fault =>
    have upserted : ran (upsert name docId r) s =
        (.error fault, touched name { s with supply := s.supply.stamp.2 }) := by
      rw [upsert, ran_bind_ok ran_stamp]
      exact ran_bind_error (ran_write_invalid short checked)
    rw [Change.call, ran_single]
    change (ran (keyed name (.document docId) fun id => upsert name id r) s).2.collections = _
    rw [ran_keyed, valid, upserted]
    rfl

theorem names_updateIn {change : List Document → List Document} {cs : List Collection}
    (sorted : cs.Pairwise fun c d => c.name < d.name) (there : name ∈ cs.map Collection.name) :
    (updateIn name change cs).map Collection.name = cs.map Collection.name := by
  induction cs with
  | nil => cases there
  | cons c rest ih =>
    obtain ⟨before, later⟩ := List.pairwise_cons.mp sorted
    rw [updateIn]
    by_cases here : c.name = name
    · rw [if_pos here, List.map_cons, List.map_cons, here]
    · have inside : name ∈ rest.map Collection.name :=
        (List.mem_cons.mp there).resolve_left (Ne.symm here)
      obtain ⟨d, member, same⟩ := List.mem_map.mp inside
      have less : c.name < name := same ▸ before d member
      rw [if_neg here, if_neg (String.lt_asymm less), List.map_cons, List.map_cons, ih later inside]

theorem names_updateIn_new {change : List Document → List Document} {cs : List Collection}
    (absent : name ∉ cs.map Collection.name) :
    ((updateIn name change cs).map Collection.name).Perm (name :: cs.map Collection.name) := by
  induction cs with
  | nil => exact List.Perm.refl _
  | cons c rest ih =>
    obtain ⟨other, outside⟩ := not_or.mp (List.mem_cons.not.mp absent)
    rw [updateIn, if_neg (Ne.symm other)]
    split
    · exact List.Perm.refl _
    · exact ((ih outside).cons c.name).trans (List.Perm.swap name c.name _)

/-- A call that is refused, but not by the file system, changes no document; and it changes the names
of the collections only if it is an upsert under an identifier that is not valid, into a collection
that is not there, which it then adds. Looking a document up changes nothing at all. Collections are
kept in the order of their names, so that there is one of a name at most. -/
theorem refused_change_keeps (sorted : s.collections.Pairwise fun c d => c.name < d.name)
    (name : String) (change : Change) {fault : StoreFault}
    (refused : (ran (change.call backend name) s).1 = .error fault)
    (own : ∀ what, fault ≠ .io what) :
    (∀ other, (ran (change.call backend name) s).2.documents other = s.documents other) ∧
      ((ran (change.call backend name) s).2.names = s.names ↔
        (Misplaced name change → name ∈ s.names)) ∧
      (Misplaced name change → name ∉ s.names →
        (ran (change.call backend name) s).2.names.Perm (name :: s.names)) ∧
      ∀ key, (ran (backend.get name key) s).2 = s := by
  have looked (key : RecordKey) := shelves.get_same name key s
  rcases ended : (ran (change.call backend name) s).2 with ⟨collections, supply⟩
  by_cases misplaced : Misplaced name change
  · have made := collections_of_misplaced misplaced s
    rw [ended] at made
    obtain rfl : collections = updateIn name id s.collections := made
    refine ⟨fun other => ?_, ⟨fun same _ => ?_, fun there => ?_⟩, fun _ absent => ?_, looked⟩
    · rw [documents_updateIn sorted]
      split
      · next same => rw [same]; rfl
      · rfl
    · by_contra absent
      change (updateIn name id s.collections).map Collection.name = s.names at same
      have more : ((updateIn name id s.collections).map Collection.name).Perm (name :: s.names) :=
        names_updateIn_new absent
      have lengths := more.length_eq
      rw [same] at lengths
      simp at lengths
    · exact names_updateIn sorted (there misplaced)
    · exact names_updateIn_new absent
  · have same := leaves_call misplaced fault refused own
    rw [ended] at same
    obtain rfl : collections = s.collections := same
    exact ⟨fun _ => rfl, iff_of_true rfl fun is => absurd is misplaced,
      fun is => absurd is misplaced, looked⟩

def bare : DocumentStore := ⟨[⟨"t", []⟩], ⟨0, 0⟩⟩

/-- Merging into a document that is not there changes nothing, and neither does an upsert under an
identifier that is not valid where the collection is there. -/
theorem refused_change_keeps_bare :
    (ran ((Change.merge (.document "a") []).call backend "t") bare).2.names = bare.names ∧
      (ran ((Change.upsert (.document "a/b") []).call backend "t") bare).2.names = bare.names := by
  have sorted : bare.collections.Pairwise fun c d => c.name < d.name := List.pairwise_singleton _ _
  have missing : (ran ((Change.merge (.document "a") []).call backend "t") bare).1 =
      .error (.notFound (missingText "a")) := by
    rfl
  have invalid : (ran ((Change.upsert (.document "a/b") []).call backend "t") bare).1 =
      .error (.rejected (DocumentFault.invalidId "a/b").message) := by
    rfl
  refine ⟨(refused_change_keeps sorted "t" _ missing fun _ same => by cases same).2.1.mpr ?_,
    (refused_change_keeps sorted "t" _ invalid fun _ same => by cases same).2.1.mpr ?_⟩
  · exact fun _ => List.mem_singleton.mpr rfl
  · exact fun _ => List.mem_singleton.mpr rfl

/-- An upsert under an identifier that is not valid is refused, and adds an empty collection. -/
theorem refused_upsert_adds_collection :
    (ran ((Change.upsert (.document "a/b") []).call backend "t") (empty ⟨0, 0⟩)).1 =
        .error (.rejected (DocumentFault.invalidId "a/b").message) ∧
      (ran ((Change.upsert (.document "a/b") []).call backend "t") (empty ⟨0, 0⟩)).2.names = ["t"] ∧
      (empty ⟨0, 0⟩).names = [] :=
  ⟨rfl, rfl, rfl⟩

end DocumentStore

end StoreGateway

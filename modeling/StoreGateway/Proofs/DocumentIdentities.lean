import Mathlib.Data.List.Perm.Subperm
import StoreGateway.Proofs.Identities

/-! Documents are kept and shown under identifiers of their own, whatever calls are made. -/

namespace StoreGateway

namespace Document

theorem isProperty_iff {name : String} : isProperty name = true ↔
    name ≠ documentId ∧ name.toList.head? ≠ some '_' := by
  simp [isProperty, isReserved]

end Document

namespace DocumentQuery

theorem identifiers_run {q : NativeQuery} {documents : List Document} {records : List Record}
    (answered : run q documents = .ok records) :
    (records.map identifier).Subperm ((documents.map Document.toRecord).map identifier) := by
  unfold run at answered
  cases read : statementOf q.text with
  | error fault =>
    rw [read] at answered
    cases answered
  | ok statement =>
    cases parsed : predicateOf q.paramsByName statement with
    | error fault =>
      simp only [read, parsed, Bind.bind, Except.bind] at answered
      cases answered
    | ok predicate =>
      cases matched : matching q.paramsByName (statement.map Select.collection) predicate
          (documents.map Document.toRecord) with
      | error fault =>
        simp only [read, parsed, matched, Bind.bind, Except.bind] at answered
        cases answered
      | ok found =>
        simp only [read, parsed, matched, Bind.bind, Except.bind] at answered
        cases answered
        have perm : (ordered statement found).Perm found := by
          cases statement with
          | none => exact List.Perm.refl found
          | some select => exact perm_ordered select found
        have cut : (limited q.limit (ordered statement found)).Sublist (ordered statement found) := by
          unfold limited
          split
          · exact List.take_sublist _ _
          · exact List.Sublist.refl _
        rw [identifiers_projected]
        exact ((cut.map identifier).subperm.trans (perm.map identifier).subperm).trans
          ((sublist_matching matched).map identifier).subperm

end DocumentQuery

namespace DocumentStore

open DocumentQuery

variable {s : DocumentStore} {name id : String} {r : Record}

theorem keyed_call (name : String) (change : Change) (s : DocumentStore) (keyed : s.Keyed) :
    (ran (change.call backend name) s).2.Keyed := by
  cases change with
  | insert r =>
    rw [Change.call, ran_single]
    change (ran (named name (insert name r) >>= _) s).2.Keyed
    exact ran_bind_keeps (P := Keyed) (confined_named keyed (confined_insert keyed name r)).kept
      fun _ _ keyed => keyed
  | replace key r =>
    rw [Change.call, ran_single]
    exact (shelves.replace name key r keyed).kept
  | upsert key r =>
    rw [Change.call, ran_single]
    exact (shelves.upsert name key r keyed).kept
  | merge key r =>
    rw [Change.call, ran_single]
    exact (shelves.merge name key r keyed).kept
  | delete key =>
    rw [Change.call, ran_silent]
    exact (shelves.delete name key keyed).kept
  | batch writes => exact keyed

/-- There is a document in a collection whose identifier a record shows. -/
def Keeps (s : DocumentStore) (name : String) (key : RecordKey → Prop) (r : Record) : Prop :=
  ∃ d ∈ s.documents name, key (.document d.id) ∧ r.get? documentId = some (.string d.id)

theorem mem_written (keyed : s.Keyed) {d : Document}
    (wrote : (ran (write name d) s).1 = .ok ()) :
    d ∈ (ran (write name d) s).2.documents name := by
  have touch := confined_touched keyed name fun _ => False
  rcases ran_write_cases name d s with ⟨fault, refused⟩ | ⟨fault, refused⟩ | ⟨short, valid, short_id⟩
  · rw [refused] at wrote
    cases wrote
  · rw [refused] at wrote
    cases wrote
  · rw [ran_write d short valid short_id]
    change d ∈ documents ⟨updateIn name (placeDocument d) (touched name s).collections, s.supply⟩ name
    rw [documents_updateIn touch.kept.sorted, if_pos rfl]
    refine List.mem_of_find?_eq_some (p := (·.id == d.id)) ?_
    rw [find?_placeDocument, if_pos rfl]

theorem keeps_written (keyed : s.Keyed) {d : Document}
    (own : ∀ m ∈ d.properties, Document.isProperty m.1 = true)
    (wrote : (ran (write name d) s).1 = .ok ()) :
    (ran (write name d) s).2.Keeps name (· = .document d.id) d.toRecord :=
  ⟨d, mem_written keyed wrote, rfl, Document.get?_toRecord d own⟩

theorem keeps_of_write (keyed : s.Keyed) {d shown : Document}
    (own : ∀ m ∈ d.properties, Document.isProperty m.1 = true)
    (wrote : (ran (write name d >>= fun _ => pure d) s).1 = .ok shown) :
    (ran (write name d >>= fun _ => pure d) s).2.Keeps name (· = .document d.id) shown.toRecord := by
  rw [ran_bind] at wrote ⊢
  rcases done : ran (write name d) s with ⟨_ | ⟨⟩, after⟩
  · rw [done] at wrote
    cases wrote
  · rw [done] at wrote
    cases wrote
    have kept : (ran (write name d) s).2.Keeps name (· = .document d.id) d.toRecord :=
      keeps_written keyed own (congrArg Prod.fst done)
    rw [done] at kept
    exact kept

theorem keeps_upsert (keyed : s.Keyed) {shown : Document}
    (wrote : (ran (upsert name id r) s).1 = .ok shown) :
    (ran (upsert name id r) s).2.Keeps name (· = .document id) shown.toRecord := by
  rw [upsert, ran_bind_ok ran_stamp] at wrote ⊢
  have supplied := (confined_supply keyed name (fun _ => False) s.supply.stamp.2).kept
  exact keeps_of_write supplied (own_withId id r _) wrote

theorem keeps_replace (keyed : s.Keyed) {shown : Document}
    (wrote : (ran (replace name id r) s).1 = .ok shown) :
    (ran (replace name id r) s).2.Keeps name (· = .document id) shown.toRecord := by
  rcases ran_replace_cases name id r s with ⟨fault, refused⟩ | ⟨d, -, -, same⟩
  · rw [refused] at wrote
    cases wrote
  · rw [same] at wrote ⊢
    exact keeps_upsert keyed wrote

theorem keeps_merge (keyed : s.Keyed) {shown : Document}
    (wrote : (ran (merge name id r) s).1 = .ok shown) :
    (ran (merge name id r) s).2.Keeps name (· = .document id) shown.toRecord := by
  have looked : ran (find name id) s = ((ran (find name id) s).1, s) :=
    Prod.ext rfl (ran_find_same name id s)
  cases outcome : (ran (find name id) s).1 with
  | error fault =>
    rw [outcome] at looked
    rw [merge, ran_bind_error looked] at wrote
    cases wrote
  | ok d =>
    rw [outcome] at looked
    rw [merge, ran_bind_ok looked, ran_bind_ok ran_stamp] at wrote ⊢
    obtain ⟨e, found, read⟩ := find_ok outcome
    have shelved : shelf.find s name (.document id) = some e := found
    obtain ⟨inside, key⟩ := found_cases shelved
    have is : d.id = id := (reread_ok read).1.trans (RecordKey.document.inj key).symm
    have supplied := (confined_supply keyed name (fun _ => False) s.supply.stamp.2).kept
    have own : ∀ m ∈ (d.merge r s.supply.stamp.1).properties, Document.isProperty m.1 = true := by
      intro m member
      rcases Record.mem_extend member with inside' | inside'
      · exact own_reread keyed inside read m inside'
      · exact (List.mem_filter.mp inside').2
    obtain ⟨f, member, key, shows⟩ := keeps_of_write supplied own wrote
    exact ⟨f, member, by rw [key, Document.merge_id, is], shows⟩

theorem keeps_insert (keyed : s.Keyed) {shown : Document}
    (wrote : (ran (insert name r) s).1 = .ok shown) :
    (ran (insert name r) s).2.Keeps name
      (· = .document (Document.ofRecord r s.supply).1.id) shown.toRecord := by
  have supplied := (confined_supply keyed name (fun _ => False) (Document.ofRecord r s.supply).2).kept
  rcases ran_insert_cases name r s with ⟨fault, refused⟩ | ⟨-, -, same⟩
  · rw [refused] at wrote
    cases wrote
  · rw [same] at wrote ⊢
    exact keeps_of_write supplied (own_withId _ r _) wrote

theorem keeps_named {call : DocumentCall Document} {key : RecordKey → Prop} {shown : Record}
    (kept : ∀ d, (ran call s).1 = .ok d → (ran call s).2.Keeps name key d.toRecord)
    (answered : (ran (do return (← named name call).toRecord) s).1 = .ok shown) :
    (ran (do return (← named name call).toRecord) s).2.Keeps name key shown := by
  change (ran (named name call >>= _) s).1 = _ at answered
  rw [ran_bind, ran_named] at answered ⊢
  cases valid : checkName name with
  | error fault =>
    rw [valid] at answered
    cases answered
  | ok done =>
    simp only [valid] at answered ⊢
    cases outcome : (ran call s).1 with
    | error fault =>
      rw [outcome] at answered
      cases answered
    | ok d =>
      rw [outcome] at answered
      cases answered
      exact kept d outcome

theorem keeps_keyed {key : RecordKey} {call : String → DocumentCall Document} {shown : Record}
    (kept : ∀ id d, (ran (call id) s).1 = .ok d →
      (ran (call id) s).2.Keeps name (· = .document id) d.toRecord)
    (answered : (ran (DocumentStore.keyed name key call) s).1 = .ok shown) :
    (ran (DocumentStore.keyed name key call) s).2.Keeps name (some key = some ·) shown := by
  cases key with
  | entity partition row => cases answered
  | document id =>
    obtain ⟨d, member, key, shows⟩ := keeps_named (kept id) answered
    exact ⟨d, member, congrArg some key.symm, shows⟩

theorem keeps_single {change : Change} {c : Call DocumentStore Record} {key : RecordKey → Prop}
    {records : List Record} (is : change.call backend name = do return [← c])
    (kept : ∀ r, (ran c s).1 = .ok r → (ran c s).2.Keeps name key r)
    (answered : (ran (change.call backend name) s).1 = .ok records) :
    ∀ r ∈ records, (ran (change.call backend name) s).2.Keeps name key r := by
  intro r member
  rw [is, ran_single] at answered ⊢
  cases outcome : (ran c s).1 with
  | error fault =>
    rw [outcome] at answered
    cases answered
  | ok r' =>
    rw [outcome] at answered
    cases answered
    cases List.mem_singleton.mp member
    exact kept r outcome

theorem keeps_call (keyed : s.Keyed) {change : Change} {records : List Record}
    (answered : (ran (change.call backend name) s).1 = .ok records) :
    ∀ r ∈ records, (ran (change.call backend name) s).2.Keeps name
      (fun key => ∀ key', change.key? .document = some key' → key' = key) r := by
  have at_ {key : RecordKey} {c : Call DocumentStore Record} {change : Change}
      (is : change.key? .document = some key)
      (kept : ∀ r, (ran c s).1 = .ok r → (ran c s).2.Keeps name (some key = some ·) r) :
      ∀ r, (ran c s).1 = .ok r → (ran c s).2.Keeps name
        (fun key => ∀ key', change.key? .document = some key' → key' = key) r := by
    intro r wrote
    obtain ⟨d, member, same, shows⟩ := kept r wrote
    refine ⟨d, member, fun key' also => ?_, shows⟩
    rw [is] at also
    exact Option.some.inj (also.symm.trans same)
  cases change with
  | insert payload =>
    refine keeps_single rfl (fun r wrote => ?_) answered
    obtain ⟨d, member, same, shows⟩ := keeps_named (fun _ => keeps_insert keyed) wrote
    refine ⟨d, member, fun key tells => ?_, shows⟩
    rw [same]
    exact (ofRecord_id (ok_of_toOption tells) s.supply).1
  | replace key payload =>
    exact keeps_single rfl (at_ rfl fun _ => keeps_keyed fun _ _ => keeps_replace keyed) answered
  | upsert key payload =>
    exact keeps_single rfl (at_ rfl fun _ => keeps_keyed fun _ _ => keeps_upsert keyed) answered
  | merge key payload =>
    exact keeps_single rfl (at_ rfl fun _ => keeps_keyed fun _ _ => keeps_merge keyed) answered
  | delete key =>
    rw [Change.call, ran_silent] at answered
    cases outcome : (ran (backend.delete name key) s).1 with
    | error fault =>
      rw [outcome] at answered
      cases answered
    | ok done =>
      rw [outcome] at answered
      cases answered
      exact fun r member => absurd member List.not_mem_nil
  | batch writes => cases answered

theorem ids_reread {documents read : List Document} (listed : documents.mapM reread = .ok read) :
    read.map Document.id = documents.map Document.id := by
  induction documents generalizing read with
  | nil =>
    cases listed
    rfl
  | cons d rest ih =>
    obtain ⟨d', more, first, others, rfl⟩ := mapM_cons_ok listed
    rw [List.map_cons, List.map_cons, (reread_ok first).1, ih others]

theorem identifiers_reread (keyed : s.Keyed) {read : List Document}
    (listed : (s.documents name).mapM reread = .ok read) :
    (read.map Document.toRecord).map identifier =
      (s.documents name).map fun d => some (.string d.id) := by
  have shown : ∀ d ∈ read, identifier d.toRecord = some (.string d.id) := by
    intro d member
    obtain ⟨e, inside, same⟩ := (mapM_ok listed).2 d member
    exact Document.get?_toRecord d (own_reread keyed inside same)
  calc (read.map Document.toRecord).map identifier
      = read.map fun d => some (.string d.id) := by
        rw [List.map_map]
        exact List.map_congr_left shown
    _ = (read.map Document.id).map fun id => some (.string id) := by rw [List.map_map]; rfl
    _ = (s.documents name).map fun d => some (.string d.id) := by
        rw [ids_reread listed, List.map_map]
        rfl

theorem nodup_ids (keyed : s.Keyed) (name : String) : ((s.documents name).map Document.id).Nodup := by
  rw [List.Nodup, List.pairwise_map]
  refine (keyed.documents name).sorted.imp fun {d e} before same => ?_
  rw [same] at before
  exact String.lt_irrefl e.id before

theorem identifiers_query (keyed : s.Keyed) {q : NativeQuery} {records : List Record}
    (queried : (ran (backend.query name q) s).1 = .ok records) :
    (∀ r ∈ records, s.Keeps name (fun _ => True) r) ∧ (records.map identifier).Nodup := by
  change (ran (named name (query name q)) s).1 = _ at queried
  rw [ran_named, ran_query] at queried
  cases valid : checkName name with
  | error fault =>
    rw [valid] at queried
    cases queried
  | ok done =>
    cases listed : (s.documents name).mapM reread with
    | error fault =>
      simp only [valid, listed] at queried
      cases queried
    | ok read =>
      simp only [valid, listed, Bind.bind, Except.bind] at queried
      cases answered : DocumentQuery.run q read with
      | error fault =>
        rw [answered] at queried
        cases queried
      | ok records' =>
        rw [answered] at queried
        cases queried
        have within := identifiers_run answered
        rw [identifiers_reread keyed listed] at within
        have nodup : ((s.documents name).map fun d => some (Value.string d.id)).Nodup := by
          rw [List.Nodup, List.pairwise_map]
          exact (List.pairwise_map.mp (nodup_ids keyed name)).imp fun different same =>
            different (Value.string.inj (Option.some.inj same))
        refine ⟨fun r member => ?_, ?_⟩
        · obtain ⟨d, there, same⟩ := List.mem_map.mp (within.subset (List.mem_map_of_mem member))
          exact ⟨d, there, trivial, same.symm⟩
        · obtain ⟨shown, perm, part⟩ := within
          exact perm.nodup_iff.mp (part.nodup nodup)

theorem keeps_find (keyed : s.Keyed) {d : Document} (looked : (ran (find name id) s).1 = .ok d) :
    (ran (find name id) s).2.Keeps name (· = .document id) d.toRecord := by
  obtain ⟨e, found, read⟩ := find_ok looked
  have shelved : shelf.find s name (.document id) = some e := found
  obtain ⟨inside, key⟩ := found_cases shelved
  rw [ran_find_same]
  refine ⟨e, inside, key.symm, ?_⟩
  rw [← (reread_ok read).1]
  exact Document.get?_toRecord d (own_reread keyed inside read)

theorem keeps_get (keyed : s.Keyed) {key : RecordKey}
    (got : (ran (backend.get name key) s).1 = .ok r) : s.Keeps name (· = key) r := by
  have kept : (ran (backend.get name key) s).2.Keeps name (some key = some ·) r :=
    keeps_keyed (fun _ _ looked => keeps_find keyed looked) got
  rw [shelves.get_same name key s] at kept
  obtain ⟨d, member, key', shows⟩ := kept
  exact ⟨d, member, (Option.some.inj key').symm, shows⟩

/-- What a store keeps and shows is under identifiers of its own. -/
structure Unforged (s : DocumentStore) : Prop where
  own : ∀ name id d, s.document? name id = some d → d.id = id ∧
    (∀ m ∈ d.properties, m.1 ≠ documentId ∧ m.1.toList.head? ≠ some '_') ∧
    d.toRecord.get? documentId = some (.string id)
  single : ∀ name, ((s.documents name).map Document.id).Nodup
  got : ∀ name key r, (ran (backend.get name key) s).1 = .ok r → s.Keeps name (· = key) r
  queried : ∀ name q records, (ran (backend.query name q) s).1 = .ok records →
    (∀ r ∈ records, s.Keeps name (fun _ => True) r) ∧
      (records.map fun r => r.get? documentId).Nodup
  answered : ∀ name change records, (ran (Change.call backend name change) s).1 = .ok records →
    ∀ r ∈ records, (ran (Change.call backend name change) s).2.Keeps name
      (fun key => ∀ key', change.key? .document = some key' → key' = key) r

theorem Keyed.unforged (keyed : s.Keyed) : s.Unforged where
  own name id d found := by
    have shelved : shelf.find s name (.document id) = some d := found
    obtain ⟨member, key⟩ := found_cases shelved
    have own := (keyed.documents name).own d member
    obtain rfl : id = d.id := RecordKey.document.inj key
    exact ⟨rfl, fun m inside => Document.isProperty_iff.mp (own m inside),
      Document.get?_toRecord d own⟩
  single := nodup_ids keyed
  got _ _ _ := keeps_get keyed
  queried _ _ _ := identifiers_query keyed
  answered _ _ _ := keeps_call keyed

end DocumentStore

/-- Whatever is done to a store that was empty, and whatever the records say that it is given: what
it keeps and shows has keys, identifiers and timestamps of the store's own, and no query shows two
records with one key. -/
theorem identities_unforged :
    (∀ maxBatch supply changes,
      (EntityTable.backend.after (.empty maxBatch supply) changes).Unforged supply) ∧
    ∀ supply changes, (DocumentStore.backend.after (.empty supply) changes).Unforged := by
  refine ⟨fun maxBatch supply changes => ?_, fun supply changes => ?_⟩
  · exact (Backend.after_keeps (EntityTable.genuine_steady supply).call
      (fun c _ => c.2.brings_any) (EntityTable.genuine_empty maxBatch supply)).unforged
  · exact (Backend.after_keeps (fun table change s _ => DocumentStore.keyed_call table change s)
      (fun c _ => c.2.brings_any) (DocumentStore.keyed_empty supply)).unforged

/-- An entity that a batch deletes is shown by its keys alone, without a timestamp. -/
theorem deletion_shows_no_timestamp :
    let t := EntityTable.backend.after (.empty 100 ⟨0, 0⟩)
      [("t", .insert [(partitionKey, .string "P"), (rowKey, .string "1")])]
    let answer := (ran (Change.call EntityTable.backend "t" (.batch [.delete (.entity "P" "1")])) t).1
    answer = .ok [[(partitionKey, .string "P"), (rowKey, .string "1")]] ∧
      ¬ ∀ records, answer = .ok records → ∀ r ∈ records, ∃ text,
        r.get? timestamp = some (.string text) := by
  refine ⟨rfl, fun all => ?_⟩
  obtain ⟨text, shown⟩ := all _ rfl _ List.mem_cons_self
  cases shown

end StoreGateway

import StoreGateway.Proofs.DocumentIdentities
import StoreGateway.Proofs.OneByOne
import StoreGateway.Proofs.ReadValues

/-!
What a store keeps can be read back. Main statement: a store that was empty, and was then given records
that were read from texts, keeps nothing that is nested deeper than it reads.
-/

namespace StoreGateway

namespace Record

variable {r more : Record}

theorem formed_iff : r.Formed ↔ ∀ m ∈ r, m.2.Formed (Json.maxDepth - 1) := Json.formedMembers_iff

theorem Formed.filter (formed : r.Formed) (p : String × Value → Bool) : Record.Formed (r.filter p) :=
  formed_iff.mpr fun m member => formed_iff.mp formed m (List.mem_filter.mp member).1

theorem Formed.extend (formed : r.Formed) (others : more.Formed) : (r.extend more).Formed := by
  refine formed_iff.mpr fun m member => ?_
  rcases mem_extend member with inside | inside
  · exact formed_iff.mp formed m inside
  · exact formed_iff.mp others m inside

end Record

namespace EntityTable

variable {t : EntityTable} {table partition row : String}

theorem formed_read {e : Entity} {r : Record} (read : e.read = .ok r) : r.Formed := by
  unfold Entity.read at read
  split at read
  · next properties again =>
    cases read
    exact Record.Formed.extend ⟨trivial, trivial, trivial, trivial⟩ (Json.formed_rereadRecord again)
  · cases read

theorem formed_load {current : Record}
    (loaded : (ran (load table partition row) t).1 = .ok (some current)) : current.Formed := by
  rw [load, ran_bind_ok (ran_get t)] at loaded
  cases found : t.find? table partition row with
  | none =>
    rw [found] at loaded
    cases loaded
  | some e =>
    rw [found] at loaded
    change (ran (liftM e.read >>= _) t).1 = _ at loaded
    rw [ran_bind, ran_lift] at loaded
    cases read : e.read with
    | error fault =>
      rw [read] at loaded
      cases loaded
    | ok r =>
      rw [read] at loaded
      cases loaded
      exact formed_read read

theorem formed_written {mode : WriteMode} {r properties : Record} (formed : r.Formed)
    (outcome : ((ran (load table partition row) t).1 >>= fun existing =>
      written mode partition row existing r) = .ok properties) : properties.Formed := by
  obtain ⟨existing, loaded, outcome⟩ := bind_ok outcome
  unfold written at outcome
  split at outcome
  · cases outcome
  · cases outcome
  · cases outcome
  · cases outcome
    exact ((formed_load loaded).filter _).extend (formed.filter _)
  · cases outcome
    exact formed.filter _

theorem formed_steady : Steady Formed Record.Formed := by
  refine ⟨fun {t r} mode table partition row formed all => ?_, fun {t} table partition row all => ?_⟩
  · rw [ran_write_eq]
    cases outcome : (ran (load table partition row) t).1 >>= fun existing =>
        written mode partition row existing r with
    | error fault => exact all
    | ok properties =>
      intro e member
      rcases mem_place member with rfl | inside
      · exact formed_written formed outcome
      · exact all e inside
  · rw [EntityTable.remove, ran_bind_ok (ran_get t)]
    cases t.find? table partition row with
    | none => exact all
    | some e => exact fun f member => all f (List.mem_filter.mp member).1

end EntityTable

namespace DocumentStore

variable {s : DocumentStore} {name id : String} {r : Record}

/-- What is kept is as texts have it that are read. -/
def Formed (s : DocumentStore) : Prop :=
  ∀ c ∈ s.collections, ∀ d ∈ c.documents, Record.Formed d.properties

theorem Formed.documents (formed : s.Formed) (name : String) :
    ∀ d ∈ s.documents name, Record.Formed d.properties := by
  intro d member
  unfold DocumentStore.documents at member
  cases which : s.collection? name with
  | none =>
    rw [which] at member
    cases member
  | some c =>
    rw [which] at member
    exact formed c (List.mem_of_find?_eq_some which) d member

theorem Formed.updateIn (formed : s.Formed) {change : List Document → List Document}
    (supply : Supply) (kept : ∀ ds, (∀ d ∈ ds, Record.Formed d.properties) →
      ∀ d ∈ change ds, Record.Formed d.properties) :
    Formed ⟨DocumentStore.updateIn name change s.collections, supply⟩ := by
  intro c member
  rcases mem_updateIn member with inside | ⟨-, new | ⟨c', inside, -, changed⟩⟩
  · exact formed c inside
  · rw [new]
    exact kept [] nofun
  · rw [changed]
    exact kept c'.documents (formed c' inside)

theorem formed_write (formed : s.Formed) (name : String) {d : Document}
    (fits : Record.Formed d.properties) : (ran (write name d) s).2.Formed := by
  have touched : (touched name s).Formed := formed.updateIn s.supply fun _ all => all
  rcases ran_write_cases name d s with ⟨fault, refused⟩ | ⟨fault, refused⟩ | ⟨short, checked, short_id⟩
  · rw [refused]
    exact formed
  · rw [refused]
    exact touched
  · rw [ran_write d short checked short_id]
    refine touched.updateIn s.supply fun ds all e member => ?_
    rcases mem_placeDocument member with rfl | inside
    · exact fits
    · exact all e inside

theorem formed_written (formed : s.Formed) (name : String) {d : Document}
    (fits : Record.Formed d.properties) :
    (ran (do write name d; return d) s).2.Formed :=
  ran_bind_keeps (P := Formed) (formed_write formed name fits) fun _ _ formed => formed

theorem formed_upsert (formed : s.Formed) (name id : String) (fits : r.Formed) :
    (ran (upsert name id r) s).2.Formed := by
  rw [upsert, ran_bind_ok ran_stamp]
  exact formed_written (s := { s with supply := s.supply.stamp.2 }) formed name (fits.filter _)

theorem formed_replace (formed : s.Formed) (name id : String) (fits : r.Formed) :
    (ran (replace name id r) s).2.Formed := by
  rcases ran_replace_cases name id r s with ⟨fault, refused⟩ | ⟨d, -, -, same⟩
  · rw [refused]
    exact formed
  · rw [same]
    exact formed_upsert formed name id fits

theorem formed_reread {d e : Document} (read : reread e = .ok d) : Record.Formed d.properties := by
  unfold reread at read
  split at read
  · next properties again =>
    cases read
    exact Json.formed_rereadRecord again
  · cases read

theorem formed_merge (formed : s.Formed) (name id : String) (fits : r.Formed) :
    (ran (merge name id r) s).2.Formed := by
  rcases ran_find_cases name id s with ⟨fault, failed, -⟩ | ⟨e, d, -, -, read, found⟩
  · rw [merge, ran_bind_error failed]
    exact formed
  · rw [merge, ran_bind_ok found, ran_bind_ok ran_stamp]
    exact formed_written (s := { s with supply := s.supply.stamp.2 }) formed name
      ((formed_reread read).extend (fits.filter _))

theorem formed_delete (formed : s.Formed) (name id : String) :
    (ran (delete name id) s).2.Formed := by
  rcases ran_delete_cases name id s with ⟨fault, refused, -⟩ | ⟨d, -, -, deleted⟩
  · rw [refused]
    exact formed
  · rw [deleted]
    exact formed.updateIn s.supply fun ds all e member => all e (List.mem_filter.mp member).1

theorem formed_insert (formed : s.Formed) (name : String) (fits : r.Formed) :
    (ran (insert name r) s).2.Formed := by
  rcases ran_insert_cases name r s with ⟨fault, refused⟩ | ⟨-, -, same⟩
  · rw [refused]
    exact formed
  · rw [same]
    exact formed_written (s := { s with supply := (Document.ofRecord r s.supply).2 }) formed name
      (fits.filter _)

theorem formed_named {α : Type} {call : DocumentCall α} (formed : s.Formed)
    (called : (ran call s).2.Formed) : (ran (named name call) s).2.Formed := by
  rw [ran_named]
  cases checkName name with
  | error fault => exact formed
  | ok done => exact called

theorem formed_keyed (formed : s.Formed) (key : RecordKey) {call : String → DocumentCall Document}
    (called : ∀ id, (ran (call id) s).2.Formed) : (ran (keyed name key call) s).2.Formed := by
  cases key with
  | entity partition row => exact formed
  | document id =>
    change (ran (named name (call id) >>= _) s).2.Formed
    exact ran_bind_keeps (P := Formed) (formed_named formed (called id)) fun _ _ formed => formed

theorem formed_call (name : String) (change : Change) (s : DocumentStore)
    (brought : change.Brings Record.Formed) (formed : s.Formed) :
    (ran (change.call backend name) s).2.Formed := by
  cases change with
  | insert r =>
    rw [Change.call, ran_single]
    change (ran (named name (insert name r) >>= _) s).2.Formed
    exact ran_bind_keeps (P := Formed) (formed_named formed (formed_insert formed name brought))
      fun _ _ formed => formed
  | replace key r =>
    rw [Change.call, ran_single]
    exact formed_keyed formed key fun id => formed_replace formed name id brought
  | upsert key r =>
    rw [Change.call, ran_single]
    exact formed_keyed formed key fun id => formed_upsert formed name id brought
  | merge key r =>
    rw [Change.call, ran_single]
    exact formed_keyed formed key fun id => formed_merge formed name id brought
  | delete key =>
    rw [Change.call, ran_silent]
    cases key with
    | entity partition row => exact formed
    | document id => exact formed_named formed (formed_delete formed name id)
  | batch writes => exact formed

end DocumentStore

theorem Change.Brings.mono {asked also : Record → Prop} {change : Change}
    (brought : change.Brings asked) (weaker : ∀ r, asked r → also r) : change.Brings also := by
  cases change with
  | delete key => trivial
  | batch writes =>
    intro w member
    have here := brought w member
    cases w with
    | delete key => trivial
    | _ r => exact weaker r here
  | _ => exact weaker _ brought

theorem kept_records_formed {changes : List (String × Change)}
    (brought : ∀ c ∈ changes, c.2.Brings fun r => ∃ text, Json.read text = .ok (.object r)) :
    (∀ maxBatch supply, (EntityTable.backend.after (.empty maxBatch supply) changes).Keyed ∧
      (EntityTable.backend.after (.empty maxBatch supply) changes).Formed) ∧
    ∀ supply, (DocumentStore.backend.after (.empty supply) changes).Keyed ∧
      ∀ name, ∀ d ∈ (DocumentStore.backend.after (.empty supply) changes).documents name,
        Record.Formed d.properties := by
  have formed : ∀ c ∈ changes, c.2.Brings Record.Formed := fun c member =>
    (brought c member).mono fun r ⟨_, read⟩ => Json.formed_readRecord read
  refine ⟨fun maxBatch supply => ⟨?_, ?_⟩, fun supply => ⟨?_, ?_⟩⟩
  · exact (Backend.after_keeps (EntityTable.genuine_steady supply).call
      (fun c _ => c.2.brings_any) (EntityTable.genuine_empty maxBatch supply)).keyed
  · exact Backend.after_keeps EntityTable.formed_steady.call formed nofun
  · exact Backend.after_keeps (fun table change s _ => DocumentStore.keyed_call table change s)
      (fun c _ => c.2.brings_any) (DocumentStore.keyed_empty supply)
  · have all : (DocumentStore.backend.after (.empty supply) changes).Formed :=
      Backend.after_keeps DocumentStore.formed_call formed nofun
    exact all.documents

end StoreGateway

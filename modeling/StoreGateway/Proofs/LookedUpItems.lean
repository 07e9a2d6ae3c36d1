import StoreGateway.Proofs.Fetched
import StoreGateway.Proofs.ItemRuns

/-!
Reads and deletes of entities that were looked up together. Each of them ends as it does without the
look-up, also where an item before it has deleted its entity.
-/

namespace StoreGateway

namespace Record

end Record

namespace EntityTable

variable {t : EntityTable} {table partition row : String} {r : Record}

theorem find_of_shown (shown : t.shownAt table (.entity partition row) = some r) :
    ∃ e, t.find? table partition row = some e ∧ e.read = .ok r := by
  obtain ⟨e, found, read⟩ := Option.bind_eq_some_iff.mp shown
  exact ⟨e, found, ok_of_toOption read⟩

theorem find_none_of_shown (readable : t.Readable table)
    (absent : t.shownAt table (.entity partition row) = none) :
    t.find? table partition row = none := by
  cases found : t.find? table partition row with
  | none => rfl
  | some e =>
    obtain ⟨here, -, -⟩ := find?_keys found
    obtain ⟨r, read⟩ := readable e (List.mem_of_find?_eq_some found) here
    have shown : t.shownAt table (.entity partition row) = some r := by
      change (t.find? table partition row).bind shelf.read = some r
      rw [found]
      change e.read.toOption = some r
      rw [read]
      rfl
    rw [absent] at shown
    cases shown

theorem ran_get_present (shown : t.shownAt table (.entity partition row) = some r) :
    ran (backend.get table (.entity partition row)) t = (.ok r, t) := by
  obtain ⟨e, found, read⟩ := find_of_shown shown
  have loaded : ran (load table partition row) t = (.ok (some r), t) := by
    rw [load, ran_bind_ok (ran_get t), found]
    change ran (liftM e.read >>= _) t = _
    rw [ran_bind, ran_lift, read]
    rfl
  rw [ran_get_entity, loaded]

def without (t : EntityTable) (table partition row : String) : EntityTable :=
  { t with entities := t.entities.filter fun e => !e.hasKey table partition row }

theorem Readable.without (readable : t.Readable table) (partition row : String) :
    (t.without table partition row).Readable table :=
  fun e member => readable e (List.mem_filter.mp member).1

theorem Keyed.without (keyed : t.Keyed) (table partition row : String) :
    (t.without table partition row).Keyed :=
  ⟨keyed.sorted.sublist List.filter_sublist, fun f member => keyed.own f (List.mem_filter.mp member).1⟩

theorem shownAt_without (keyed : t.Keyed) (row' : String) :
    (t.without table partition row).shownAt table (.entity partition row') =
      if row' = row then none else t.shownAt table (.entity partition row') := by
  by_cases same : row' = row
  · rw [if_pos same]
    refine Option.eq_none_iff_forall_ne_some.mpr fun r shown => ?_
    obtain ⟨e, member, rfl, rfl, rfl, -⟩ := (shownAt_iff (keyed.without table partition row)).mp shown
    have gone := (List.mem_filter.mp member).2
    rw [Entity.hasKey_iff.mpr ⟨rfl, rfl, same⟩] at gone
    cases gone
  · rw [if_neg same]
    refine Option.ext fun r => ?_
    rw [shownAt_iff (keyed.without table partition row), shownAt_iff keyed]
    constructor
    · rintro ⟨e, member, rest⟩
      exact ⟨e, (List.mem_filter.mp member).1, rest⟩
    · rintro ⟨e, member, here, there, at_row, read⟩
      refine ⟨e, List.mem_filter.mpr ⟨member, ?_⟩, here, there, at_row, read⟩
      have other : e.hasKey table partition row = false := by
        refine Bool.eq_false_iff.mpr fun has => same ?_
        rw [← at_row]
        exact (Entity.hasKey_iff.mp has).2.2
      rw [other]
      rfl

end EntityTable

namespace Executor

open Running

variable {e : Executor EntityTable} {t : EntityTable} {partition row : String} {images : Images}

/-- What was found for the items of a partition is there, or is there no more. -/
def Foreknown (e : Executor EntityTable) (partition : String) (images : Images)
    (items : List Prepared) (t : EntityTable) : Prop :=
  ∀ item ∈ items, ∀ row, item.key = some (.entity partition row) →
    images.of? (.entity partition row) = t.shownAt e.table (.entity partition row) ∨
      t.shownAt e.table (.entity partition row) = none

theorem Foreknown.without {items : List Prepared} (known : e.Foreknown partition images items t)
    (keyed : t.Keyed) (row : String) :
    e.Foreknown partition images items (t.without e.table partition row) := by
  intro item member row' named
  rw [EntityTable.shownAt_without keyed]
  by_cases same : row' = row
  · rw [if_pos same]
    exact .inr rfl
  · rw [if_neg same]
    exact known item member row' named

end Executor

end StoreGateway

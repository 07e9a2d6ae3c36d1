import StoreGateway.Gateway.Basic
import StoreGateway.Proofs.Records
import StoreGateway.Proofs.Runs

/-! What an answer shows of the records that a store finds. -/

namespace StoreGateway

namespace Record

theorem perm_insertBehind (keys : List SortKey) (r : Record) (sorted : List Record) :
    (insertBehind keys r sorted).Perm (r :: sorted) := by
  induction sorted with
  | nil => exact List.Perm.refl _
  | cons last before ih =>
    rw [insertBehind]
    split
    · exact (ih.cons last).trans (List.Perm.swap r last before)
    · exact List.Perm.refl _

/-- Sorting keeps every record, and adds none. -/
theorem perm_sortByKeys (keys : List SortKey) (records : List Record) :
    (sortByKeys keys records).Perm records := by
  have folded (rest sorted : List Record) :
      (rest.foldl (fun sorted r => insertBehind keys r sorted) sorted).Perm (rest ++ sorted) := by
    induction rest generalizing sorted with
    | nil => exact List.Perm.refl _
    | cons r rest ih =>
      rw [List.foldl_cons]
      refine (ih _).trans ?_
      exact ((perm_insertBehind keys r sorted).append_left rest).trans List.perm_middle
  have all := folded records []
  rw [List.append_nil] at all
  exact (List.reverse_perm _).trans all

theorem perm_sortBy (orderBy : String) (qualifier : Option String) (records : List Record) :
    (sortBy orderBy qualifier records).Perm records :=
  perm_sortByKeys _ records

theorem get?_filter_of_keeps {r : Record} {keeps : String × Value → Bool} {name : String}
    (kept : ∀ m ∈ r, m.1 = name → keeps m = true) :
    Record.get? (r.filter keeps) name = r.get? name := by
  induction r with
  | nil => rfl
  | cons m r ih =>
    have rest := ih fun n member => kept n (List.mem_cons_of_mem m member)
    obtain ⟨other, v⟩ := m
    unfold get? at rest ⊢
    rw [List.filter_cons, lookup_cons_eq_ite]
    by_cases same : name = other
    · rw [if_pos (kept (other, v) List.mem_cons_self same.symm), lookup_cons_eq_ite, if_pos same,
        if_pos same]
    · rw [if_neg same]
      split
      · rw [lookup_cons_eq_ite, if_neg same]
        exact rest
      · exact rest

end Record

theorem Selection.keeps_identifier (s : Selection) {kind : StoreKind} {name : String}
    (is : name ∈ kind.identifiers) : s.keeps kind name = true := by
  have among : kind.identifiers.contains name = true := List.contains_iff_mem.mpr is
  cases s with
  | idsOnly => exact among
  | all => rfl
  | only fields => rw [keeps, among, Bool.true_or]

theorem Selection.get?_clean (s : Selection) {kind : StoreKind} (r : Record) {name : String}
    (is : name ∈ kind.identifiers) : (s.clean kind r).get? name = r.get? name := by
  refine Record.get?_filter_of_keeps fun m _ same => ?_
  change s.keeps kind m.1 = true
  rw [same]
  exact s.keeps_identifier is

namespace Gateway

variable {σ α : Type}

theorem ran_perform (c : Call σ α) (s : σ) :
    ran (Gateway.perform c) s = match ran c s with
      | (.ok a, after) => (.ok a, after)
      | (.error fault, after) => (.error (.ofStore fault), after) := by
  rw [Gateway.perform, ran_bind_ok (ran_get s)]
  change ran (set (ran c s).2 >>= _) s = _
  rw [ran_bind_ok (ran_set _ s)]
  have run : c s = ran c s := rfl
  rcases called : ran c s with ⟨outcome, after⟩
  rw [called] at run
  dsimp only
  rw [run]
  cases outcome <;> rfl

theorem ran_perform_of_ok {c : Call σ α} {s after : σ} {a : α} (run : ran c s = (.ok a, after)) :
    ran (Gateway.perform c) s = (.ok a, after) := by
  rw [ran_perform, run]

theorem ran_perform_ok {c : Call σ α} {s after : σ} {a : α}
    (run : ran (Gateway.perform c) s = (.ok a, after)) : ran c s = (.ok a, after) := by
  rw [ran_perform] at run
  rcases called : ran c s with ⟨outcome, left⟩
  rw [called] at run
  cases outcome with
  | ok found =>
    cases run
    rfl
  | error fault => cases run

end Gateway

end StoreGateway

import StoreGateway.Batch.Result

/-! Outcomes in the order of their indices, one for each. -/

namespace StoreGateway

namespace BatchResult

def indices (b : BatchResult) : List Nat := b.outcomes.map Prod.fst

theorem mem_placeIndex {index i : Nat} {positions : List Nat} :
    i ∈ placeIndex index positions ↔ i = index ∨ i ∈ positions := by
  induction positions with
  | nil => simp [placeIndex]
  | cons other rest ih =>
    rw [placeIndex]
    split
    · next same => simp [same]
    · split
      · simp
      · rw [List.mem_cons, ih, List.mem_cons]
        exact or_left_comm

theorem sorted_placeIndex {index : Nat} {positions : List Nat}
    (sorted : positions.Pairwise (· < ·)) : (placeIndex index positions).Pairwise (· < ·) := by
  induction positions with
  | nil => exact List.pairwise_singleton _ _
  | cons other rest ih =>
    rw [placeIndex]
    split
    · exact sorted
    · next different =>
      obtain ⟨first, later⟩ := List.pairwise_cons.mp sorted
      split
      · next before =>
        refine List.pairwise_cons.mpr ⟨fun i member => ?_, sorted⟩
        rcases List.mem_cons.mp member with here | after
        · rw [here]
          exact before
        · exact Nat.lt_trans before (first i after)
      · next not_before =>
        refine List.pairwise_cons.mpr ⟨fun i member => ?_, ih later⟩
        rcases mem_placeIndex.mp member with here | after
        · rw [here]
          exact Nat.lt_of_le_of_ne (Nat.not_lt.mp not_before) (Ne.symm different)
        · exact first i after

theorem indices_placeOutcome (index : Nat) (o : Outcome) (outcomes : List (Nat × Outcome)) :
    (placeOutcome index o outcomes).map Prod.fst = placeIndex index (outcomes.map Prod.fst) := by
  induction outcomes with
  | nil => rfl
  | cons first rest ih =>
    obtain ⟨other, p⟩ := first
    rw [placeOutcome, List.map_cons, placeIndex]
    split
    · next same => rw [same, List.map_cons]
    · split
      · rfl
      · rw [List.map_cons, ih]

theorem mem_placeOutcome_indices {index i : Nat} {o : Outcome} {outcomes : List (Nat × Outcome)} :
    i ∈ (placeOutcome index o outcomes).map Prod.fst ↔ i = index ∨ i ∈ outcomes.map Prod.fst := by
  rw [indices_placeOutcome, mem_placeIndex]

theorem sorted_placeOutcome {index : Nat} {o : Outcome} {outcomes : List (Nat × Outcome)}
    (sorted : (outcomes.map Prod.fst).Pairwise (· < ·)) :
    ((placeOutcome index o outcomes).map Prod.fst).Pairwise (· < ·) := by
  rw [indices_placeOutcome]
  exact sorted_placeIndex sorted

/-- Some indices have an outcome now, beside those that had one before. -/
structure Gains (before after : BatchResult) (new : List Nat) : Prop where
  sorted : before.indices.Pairwise (· < ·) → after.indices.Pairwise (· < ·)
  members : ∀ i, i ∈ after.indices ↔ i ∈ before.indices ∨ i ∈ new

variable {b b' b'' : BatchResult} {first more : List Nat}

theorem gains_nothing : b.Gains b [] := by
  refine ⟨fun sorted => sorted, fun i => ?_⟩
  simp

theorem gains_place {index : Nat} {o : Outcome}
    (placed : b'.outcomes = placeOutcome index o b.outcomes) : b.Gains b' [index] := by
  refine ⟨fun sorted => ?_, fun i => ?_⟩
  · rw [indices, placed]
    exact sorted_placeOutcome sorted
  · rw [indices, placed, mem_placeOutcome_indices, List.mem_singleton]
    exact or_comm

theorem Gains.append (gains : b.Gains b' first) (gains' : b'.Gains b'' more) :
    b.Gains b'' (first ++ more) := by
  refine ⟨fun sorted => gains'.sorted (gains.sorted sorted), fun i => ?_⟩
  rw [gains'.members, gains.members, List.mem_append]
  exact or_assoc

end BatchResult

end StoreGateway

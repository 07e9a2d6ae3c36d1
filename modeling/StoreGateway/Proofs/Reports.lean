import Mathlib.Data.List.Basic
import StoreGateway.Proofs.Outcomes
import StoreGateway.Proofs.Records

/-!
What a result shows after any reports on the items of a batch, in any order and more than one on an
item. The last report on an item is its outcome, but an item that has failed once stays among those
that failed.
-/

namespace StoreGateway

def Outcome.record? : Outcome → Option Record
  | record r => some r
  | failed _ => none

namespace BatchResult

def report (b : BatchResult) : Nat × Outcome → BatchResult
  | (index, .record r) => b.record index r
  | (index, .failed message) => b.fail index message

def ofReports (reports : List (Nat × Outcome)) : BatchResult := reports.foldl report empty

def latest (reports : List (Nat × Outcome)) (index : Nat) : Option Outcome :=
  reports.reverse.lookup index

/-- No item has failed first and succeeded last. -/
def NoneRecovers (reports : List (Nat × Outcome)) : Prop :=
  ∀ index r message, latest reports index = some (.record r) → (index, .failed message) ∉ reports

/-- What a result keeps of the reports on its items. -/
structure Reflects (b : BatchResult) (reports : List (Nat × Outcome)) : Prop where
  sorted : b.indices.Pairwise (· < ·)
  current : ∀ i, b.outcome? i = latest reports i
  ascending : b.failed.Pairwise (· < ·)
  failed : ∀ i, i ∈ b.failed ↔ ∃ message, (i, .failed message) ∈ reports
  incomplete : b.incomplete = true ↔ b.failed ≠ []

theorem latest_append (reports : List (Nat × Outcome)) (index : Nat) (o : Outcome) (i : Nat) :
    latest (reports ++ [(index, o)]) i = if i = index then some o else latest reports i := by
  rw [latest, List.reverse_append, List.reverse_singleton, List.singleton_append, lookup_cons_eq_ite,
    latest]

theorem lookup_placeOutcome (index : Nat) (o : Outcome) (outcomes : List (Nat × Outcome)) (i : Nat) :
    (placeOutcome index o outcomes).lookup i =
      if i = index then some o else outcomes.lookup i := by
  induction outcomes with
  | nil => exact lookup_cons_eq_ite i index o []
  | cons first rest ih =>
    obtain ⟨other, p⟩ := first
    rw [placeOutcome]
    split
    · next here =>
      rw [lookup_cons_eq_ite, lookup_cons_eq_ite, here]
      by_cases same : i = other
      · rw [if_pos same, if_pos same]
      · rw [if_neg same, if_neg same, if_neg same]
    · next different =>
      split
      · rw [lookup_cons_eq_ite]
      · rw [lookup_cons_eq_ite, lookup_cons_eq_ite, ih]
        by_cases same : i = index
        · rw [if_pos same, same, if_neg different, if_pos rfl]
        · rw [if_neg same, if_neg same]

theorem lookup_of_mem {outcomes : List (Nat × Outcome)} {i : Nat} {o : Outcome}
    (sorted : (outcomes.map Prod.fst).Pairwise (· < ·)) (member : (i, o) ∈ outcomes) :
    outcomes.lookup i = some o := by
  induction outcomes with
  | nil => cases member
  | cons first rest ih =>
    obtain ⟨other, p⟩ := first
    obtain ⟨before, later⟩ := List.pairwise_cons.mp sorted
    rw [lookup_cons_eq_ite]
    rcases List.mem_cons.mp member with here | inside
    · cases here
      rw [if_pos rfl]
    · have less : other < i := before i (List.mem_map_of_mem inside)
      rw [if_neg (Nat.ne_of_gt less), ih later inside]

variable {b : BatchResult} {reports : List (Nat × Outcome)}

theorem reflects_empty : empty.Reflects [] := by
  refine ⟨List.Pairwise.nil, fun i => rfl, List.Pairwise.nil, fun i => ?_, ?_⟩
  · simp [empty]
  · simp [empty]

theorem Reflects.record (reflects : b.Reflects reports) (index : Nat) (r : Record) :
    (b.record index r).Reflects (reports ++ [(index, .record r)]) := by
  refine ⟨sorted_placeOutcome reflects.sorted, fun i => ?_, reflects.ascending, fun i => ?_,
    reflects.incomplete⟩
  · rw [latest_append, ← reflects.current]
    exact lookup_placeOutcome index _ _ i
  · simp [BatchResult.record, reflects.failed]

theorem Reflects.fail (reflects : b.Reflects reports) (index : Nat) (message : String) :
    (b.fail index message).Reflects (reports ++ [(index, .failed message)]) := by
  refine ⟨sorted_placeOutcome reflects.sorted, fun i => ?_, sorted_placeIndex reflects.ascending,
    fun i => ?_, ?_⟩
  · rw [latest_append, ← reflects.current]
    exact lookup_placeOutcome index _ _ i
  · change i ∈ placeIndex index b.failed ↔ _
    rw [mem_placeIndex, reflects.failed]
    constructor
    · rintro (rfl | ⟨text, before⟩)
      · exact ⟨message, List.mem_append_right reports List.mem_cons_self⟩
      · exact ⟨text, List.mem_append_left _ before⟩
    · rintro ⟨text, member⟩
      rcases List.mem_append.mp member with before | last
      · exact .inr ⟨text, before⟩
      · cases List.mem_singleton.mp last
        exact .inl rfl
  · have inside : index ∈ placeIndex index b.failed := mem_placeIndex.mpr (.inl rfl)
    exact iff_of_true rfl (List.ne_nil_of_mem inside)

theorem Reflects.report (reflects : b.Reflects reports) (next : Nat × Outcome) :
    (b.report next).Reflects (reports ++ [next]) := by
  obtain ⟨index, r | message⟩ := next
  · exact reflects.record index r
  · exact reflects.fail index message

theorem Reflects.after (reflects : b.Reflects reports) (more : List (Nat × Outcome)) :
    (more.foldl BatchResult.report b).Reflects (reports ++ more) := by
  induction more generalizing b reports with
  | nil => rwa [List.append_nil]
  | cons next more ih =>
    rw [List.foldl_cons, List.append_cons]
    exact ih (reflects.report next)

theorem reflects_ofReports (reports : List (Nat × Outcome)) :
    (ofReports reports).Reflects reports :=
  reflects_empty.after reports

theorem Reflects.records (reflects : b.Reflects reports) :
    b.records = b.indices.filterMap fun i => (latest reports i).bind Outcome.record? := by
  rw [BatchResult.records, indices, List.filterMap_map]
  refine List.filterMap_congr fun entry member => ?_
  obtain ⟨i, o⟩ := entry
  have current : latest reports i = some o := by
    rw [← reflects.current]
    exact lookup_of_mem reflects.sorted member
  rw [Function.comp_apply, current]
  cases o <;> rfl

theorem error_envelope (b : BatchResult) :
    b.envelope.error = if b.incomplete then some b.failed else none := by
  rw [envelope]
  split <;> rfl

theorem mem_of_latest {i : Nat} {o : Outcome} (last : latest reports i = some o) :
    (i, o) ∈ reports :=
  List.mem_reverse.mp (mem_of_lookup last)

theorem exists_latest {i : Nat} {o : Outcome} (member : (i, o) ∈ reports) :
    ∃ last, latest reports i = some last := by
  rw [← Option.ne_none_iff_exists']
  intro none
  have other := List.lookup_eq_none_iff.mp none (i, o) (List.mem_reverse.mpr member)
  simp at other

theorem Reflects.failed_current_iff (reflects : b.Reflects reports) :
    (∀ i, i ∈ b.failed ↔ ∃ message, latest reports i = some (.failed message)) ↔
      NoneRecovers reports := by
  constructor
  · intro exact index r message last before
    obtain ⟨text, same⟩ := (exact index).mp ((reflects.failed index).mpr ⟨message, before⟩)
    cases last.symm.trans same
  · intro none i
    rw [reflects.failed]
    constructor
    · rintro ⟨message, member⟩
      obtain ⟨r | text, last⟩ := exists_latest member
      · exact absurd member (none i r message last)
      · exact ⟨text, last⟩
    · rintro ⟨message, last⟩
      exact ⟨message, mem_of_latest last⟩

theorem Reflects.incomplete_iff (reflects : b.Reflects reports) :
    b.incomplete = true ↔ ∃ i, i ∈ b.failed :=
  reflects.incomplete.trans ⟨List.exists_mem_of_ne_nil _, fun ⟨_, member⟩ => List.ne_nil_of_mem member⟩

/-- After any reports in any order, each item's outcome is the last report on it, the records are those
of the items whose outcome is a record, in the order of their indices, and the error list is there if
any item has failed and names those that have, each once and in order. That these are the items whose
outcome is a failure, and that the result is incomplete only if there is one, holds exactly if no item
that failed has recovered. -/
theorem reports_reflected (reports : List (Nat × Outcome)) :
    (ofReports reports).Reflects reports ∧
      (ofReports reports).records = ((ofReports reports).indices.filterMap fun i =>
        (latest reports i).bind Outcome.record?) ∧
      ((ofReports reports).envelope.error =
        if (ofReports reports).incomplete then some (ofReports reports).failed else none) ∧
      (((∀ i, i ∈ (ofReports reports).failed ↔
          ∃ message, latest reports i = some (.failed message)) ∧
        ((ofReports reports).incomplete = true ↔
          ∃ i message, latest reports i = some (.failed message))) ↔ NoneRecovers reports) := by
  have reflects := reflects_ofReports reports
  refine ⟨reflects, reflects.records, error_envelope _, fun both => ?_, fun none => ⟨?_, ?_⟩⟩
  · exact reflects.failed_current_iff.mp both.1
  · exact reflects.failed_current_iff.mpr none
  · rw [reflects.incomplete_iff]
    exact exists_congr (reflects.failed_current_iff.mpr none)

/-- An item that succeeds after it has failed has a record for its outcome, and is shown as failed. -/
theorem recovered_item_failed :
    let reports := [(0, .failed "x"), (0, .record [("id", .string "later")])]
    latest reports 0 = some (.record [("id", .string "later")]) ∧
      (ofReports reports).failed = [0] ∧ (ofReports reports).incomplete = true ∧
      (ofReports reports).records = [[("id", .string "later")]] ∧
      (ofReports reports).envelope.error = some [0] :=
  ⟨rfl, rfl, rfl, rfl, rfl⟩

end BatchResult

end StoreGateway

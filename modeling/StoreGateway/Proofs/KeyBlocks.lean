import StoreGateway.Proofs.Fetched

/-!
Row keys that are asked for in several filters. The filters take the keys in blocks of one size, each
filter finds the keys of its own block, and none of them is too long for the service.
-/

namespace StoreGateway

namespace Entity

def block {α : Type} (size i : Nat) (xs : List α) : List α := (xs.drop (i * size)).take size

theorem chunks_eq_blocks {α : Type} {size : Nat} (some : 1 ≤ size) (xs : List α) :
    chunks size xs = (List.range ((xs.length + size - 1) / size)).map fun i => block size i xs := by
  obtain ⟨s, rfl⟩ := Nat.exists_eq_add_of_le' some
  induction xs using chunks.induct (s + 1) with
  | case1 =>
    have none : (0 + (s + 1) - 1) / (s + 1) = 0 := Nat.div_eq_of_lt (by omega)
    rw [chunks, List.length_nil, none]
    rfl
  | case2 x rest ih =>
    rw [Nat.add_sub_cancel] at ih
    have count : ((x :: rest).length + (s + 1) - 1) / (s + 1) =
        ((rest.drop s).length + (s + 1) - 1) / (s + 1) + 1 := by
      rw [← Nat.add_div_right _ (Nat.succ_pos s), List.length_cons, List.length_drop]
      rcases Nat.lt_or_ge rest.length s with short | long
      · -- The last block may be short: then both sides count it alone.
        rw [Nat.sub_eq_zero_of_le (Nat.le_of_lt short)]
        have one : (rest.length + 1 + (s + 1) - 1) / (s + 1) = 1 :=
          Nat.div_eq_of_lt_le (by omega) (by omega)
        have one' : (0 + (s + 1) - 1 + (s + 1)) / (s + 1) = 1 :=
          Nat.div_eq_of_lt_le (by omega) (by omega)
        rw [one, one']
      · congr 1
        omega
    have next (i : Nat) : block (s + 1) i (rest.drop s) = block (s + 1) (i + 1) (x :: rest) := by
      rw [block, block, List.drop_drop, Nat.succ_mul, ← Nat.add_assoc, List.drop_succ_cons,
        Nat.add_comm s (i * (s + 1))]
    rw [chunks, count, List.range_succ_eq_map, List.map_cons, List.map_map, Nat.add_sub_cancel, ih]
    refine List.cons_eq_cons.mpr ⟨?_, List.map_congr_left fun i _ => next i⟩
    rw [block, Nat.zero_mul, List.drop_zero, List.take_succ_cons]

theorem keysHold_of_keys {r : Record} {partition row : String} (named : Option String)
    (ids : List String) (first : r.get? partitionKey = some (.string partition))
    (second : r.get? rowKey = some (.string row)) :
    keysHold named ids r = decide (row ∈ ids ∧ ∀ p ∈ named, partition = p) := by
  have rows : (ids.any fun id => Comparator.eq.holds (r.present? rowKey) (.string id)) = true ↔
      row ∈ ids := by
    simp only [List.any_eq_true, eq_holds_iff second, exists_eq_right']
  have place : (named.all fun p => Comparator.eq.holds (r.present? partitionKey) (.string p)) = true ↔
      ∀ p ∈ named, partition = p := by
    simp only [Option.all_eq_true, eq_holds_iff first, Option.mem_def]
  rw [Bool.eq_iff_iff, keysHold, Bool.and_eq_true, rows, place, decide_eq_true_eq, and_comm]

theorem idsFilter_accepted {partition : Option String} (named : partition ≠ some "")
    {ids : List String} (any : ids ≠ []) (few : ids.length ≤ Entity.maxIds) :
    ∃ f, Filter.parse [] (idsFilter partition ids) = .ok (some f) ∧
      f.comparisonCount ≤ ids.length + 1 ∧
      EntityTable.filterOf (.ofText (idsFilter partition ids)) = .ok (some f) ∧
      ∀ (r : Record) (own row : String), r.get? partitionKey = some (.string own) →
        r.get? rowKey = some (.string row) →
          f.holds [] none r = .ok (decide (row ∈ ids ∧ ∀ p ∈ partition, own = p)) := by
  have kept := filter_of_named named
  obtain ⟨f, parses, count⟩ := count_idsFilter partition any
  obtain ⟨g, parses', holds⟩ := (means_keys partition any).parse
  rw [parses] at parses'
  cases parses'
  have room : f.comparisonCount ≤ ids.length + 1 := by
    rw [count, kept]
    cases partition <;> simp
  have fits : f.comparisonCount ≤ maxComparisons :=
    Nat.le_trans room (Nat.succ_le_succ few)
  refine ⟨f, parses, room, EntityTable.filterOf_ofText parses fits, fun r own row first second => ?_⟩
  rw [holds r, kept, keysHold_of_keys partition ids first second]

theorem length_block_le {α : Type} (size i : Nat) (xs : List α) :
    (block size i xs).length ≤ size := by
  rw [block, List.length_take]
  exact Nat.min_le_left _ _

theorem block_ne_nil {α : Type} {size i : Nat} (some : 1 ≤ size) {xs : List α}
    (counted : i < (xs.length + size - 1) / size) : block size i xs ≠ [] := by
  have reach : (i + 1) * size ≤ xs.length + size - 1 :=
    (Nat.le_div_iff_mul_le some).mp counted
  rw [Nat.succ_mul] at reach
  refine List.ne_nil_of_length_pos ?_
  rw [block, List.length_take, List.length_drop]
  omega

end Entity

open Entity

/-- Filters for row keys ask for one block of keys after another. Each is read with room for the
partition, taken by the table, and holds of the entities whose row key is in its block and whose
partition is the one that is named. -/
theorem Entity.Compiler.idsFilters_blocks (fields : FieldMap) (params : Params) (maxIds : Nat)
    (ids : List String) (partition : Option String) (named : partition ≠ some "") :
    let compiler := Compiler.new fields params maxIds
    let m := compiler.maxIds
    let texts := compiler.idsFilters ids partition
    m = max 1 (min maxIds 14) ∧ texts.length = (ids.length + m - 1) / m ∧
      ∀ i text, texts[i]? = some text → ∃ f, Filter.parse [] text = .ok (some f) ∧
        f.comparisonCount ≤ m + 1 ∧ m + 1 ≤ maxComparisons ∧
        EntityTable.filterOf (.ofText text) = .ok (some f) ∧
        ∀ (r : Record) (own row : String), r.get? partitionKey = some (.string own) →
          r.get? rowKey = some (.string row) →
            f.holds [] none r =
              .ok (decide (row ∈ block m i ids ∧ ∀ p ∈ partition, own = p)) := by
  intro compiler m texts
  have some : 1 ≤ m := Nat.le_max_left _ _
  have few : m ≤ 14 := Nat.max_le.mpr ⟨by decide, Nat.min_le_right _ _⟩
  have listed : texts = (List.range ((ids.length + m - 1) / m)).map fun i =>
      idsFilter partition (block m i ids) := by
    change (chunks m ids).map _ = _
    rw [chunks_eq_blocks some, List.map_map]
    rfl
  refine ⟨rfl, by rw [listed, List.length_map, List.length_range], fun i text found => ?_⟩
  rw [listed, List.getElem?_map, Option.map_eq_some_iff] at found
  obtain ⟨j, counted, rfl⟩ := found
  obtain ⟨inside, rfl⟩ := List.getElem?_eq_some_iff.mp counted
  rw [List.getElem_range]
  rw [List.length_range] at inside
  have short : (block m i ids).length ≤ m := length_block_le m i ids
  obtain ⟨f, parses, count, taken, holds⟩ := idsFilter_accepted named
    (block_ne_nil some inside) (Nat.le_trans short few)
  exact ⟨f, parses, Nat.le_trans count (Nat.succ_le_succ short), Nat.succ_le_succ few, taken, holds⟩

/-- Of three row keys with at most two in a filter, the second filter finds the third, in the
partition that is named. -/
theorem Entity.Compiler.idsFilters_blocks_of_three :
    let texts := (Compiler.new (FieldMap.openFor .table) [] 2).idsFilters ["a", "o'b", "(c)"] (some "P")
    texts.length = 2 ∧ ∃ text f, texts[1]? = some text ∧ Filter.parse [] text = .ok (some f) ∧
      f.holds [] none [(partitionKey, .string "P"), (rowKey, .string "(c)")] = .ok true ∧
      f.holds [] none [(partitionKey, .string "P"), (rowKey, .string "o'b")] = .ok false ∧
      f.holds [] none [(partitionKey, .string "Q"), (rowKey, .string "(c)")] = .ok false := by
  obtain ⟨-, count, each⟩ := Compiler.idsFilters_blocks (FieldMap.openFor .table) [] 2
    ["a", "o'b", "(c)"] (some "P") (by decide)
  refine ⟨count, ?_⟩
  obtain ⟨text, found⟩ : ∃ text, ((Compiler.new (FieldMap.openFor .table) [] 2).idsFilters
      ["a", "o'b", "(c)"] (some "P"))[1]? = some text :=
    ⟨_, List.getElem?_eq_getElem (by rw [count]; decide)⟩
  obtain ⟨f, parses, -, -, -, holds⟩ := each 1 text found
  refine ⟨text, f, found, parses, ?_, ?_, ?_⟩
  · rw [holds _ "P" "(c)" rfl rfl]
    decide
  · rw [holds _ "P" "o'b" rfl rfl]
    decide
  · rw [holds _ "Q" "(c)" rfl rfl]
    decide

end StoreGateway

import StoreGateway.Proofs.Nearest
import StoreGateway.Proofs.Sorting

/-!
Integers beside each other. They compare by their nearest numbers of 53 significant bits, so that two
integers of which these are the same number are taken for equal. No other two are, and none come in
the other order.
-/

namespace StoreGateway

namespace Binary64

/-- The nearest integer of 53 significant bits; of two that are as near, the even one. -/
def nearestInt (i : Int) : Int :=
  if i < 0 then -(roundSteps i.natAbs 1 : Int) else roundSteps i.natAbs 1

theorem toSteps_ofInt (i : Int) : (ofInt i).toSteps = nearestInt i * stepsInOne := by
  have scaled : roundSteps (i.natAbs * stepsInOne) 1 = roundSteps i.natAbs 1 * stepsInOne := by
    obtain ⟨bits, power⟩ := stepsInOne_power
    rw [power]
    exact roundSteps_scale i.natAbs bits
  unfold ofInt ofRatio toSteps nearestInt
  simp only [scaled, decide_eq_true_eq]
  split
  · rw [Int.neg_mul, Int.natCast_mul]
  · rw [Int.natCast_mul]

theorem natAbs_nearestInt (i : Int) : (nearestInt i).natAbs = roundSteps i.natAbs 1 := by
  unfold nearestInt
  split <;> omega

theorem nearestInt_mono {i j : Int} (le : i ≤ j) : nearestInt i ≤ nearestInt j := by
  unfold nearestInt
  by_cases negative : j < 0
  · have rounded := roundSteps_mono (show j.natAbs ≤ i.natAbs by omega)
    rw [if_pos negative, if_pos (by omega)]
    omega
  · rw [if_neg negative]
    split
    · omega
    · have rounded := roundSteps_mono (show i.natAbs ≤ j.natAbs by omega)
      omega

theorem nearestInt_short {i : Int} (short : i.natAbs ≤ 2 ^ 53) : nearestInt i = i := by
  unfold nearestInt
  rw [roundSteps_short short]
  split <;> omega

theorem long_of_nearestInt_eq {i j : Int} (same : nearestInt i = nearestInt j) (other : i ≠ j) :
    2 ^ 53 ≤ i.natAbs := by
  refine Nat.le_of_not_lt fun short => ?_
  have exact_ := nearestInt_short (Nat.le_of_lt short)
  by_cases short' : j.natAbs ≤ 2 ^ 53
  · rw [exact_, nearestInt_short short'] at same
    exact other same
  · have far := roundSteps_mono (Nat.le_of_not_le short')
    rw [roundSteps_short (Nat.le_refl _), ← natAbs_nearestInt, ← same, exact_] at far
    omega

theorem nearestInt_near {i : Int} (bounded : i.natAbs < 2 ^ 64) :
    2 * (nearestInt i - i).natAbs ≤ 2 ^ 11 := by
  have up := roundQuotient_mul_le i.natAbs (gapAbove i.natAbs)
  have down := le_roundQuotient_mul i.natAbs (gapAbove_pos i.natAbs)
  rw [← roundSteps_one] at up down
  have gap : gapAbove i.natAbs ≤ 2 ^ 11 := by
    refine Nat.pow_le_pow_right (by decide) ?_
    by_cases zero : i.natAbs = 0
    · rw [zero]
      decide
    · have bits := (log2_lt_iff zero).mpr bounded
      omega
  unfold nearestInt
  split <;> omega

end Binary64

open Binary64

namespace Value

theorem compare?_integers (i j : Int) : (int i).compare? (int j) =
    some (if nearestInt i = nearestInt j then .eq else Ord.compare i j) := by
  have some : (0 : Int) < stepsInOne := Int.natCast_pos.mpr stepsInOne_pos
  rw [compare?_numbers rfl rfl, toSteps_ofInt, toSteps_ofInt]
  congr 1
  generalize (stepsInOne : Int) = unit at some ⊢
  split
  · next same =>
    rw [same]
    exact Int.compare_eq_eq.mpr rfl
  · next apart =>
    rcases Int.lt_trichotomy i j with less | rfl | more
    · have below := Int.lt_iff_le_and_ne.mpr ⟨nearestInt_mono (Int.le_of_lt less), apart⟩
      rw [Int.compare_eq_lt.mpr less, Int.compare_eq_lt.mpr (Int.mul_lt_mul_of_pos_right below some)]
    · exact absurd rfl apart
    · have above := Int.lt_iff_le_and_ne.mpr ⟨nearestInt_mono (Int.le_of_lt more), Ne.symm apart⟩
      rw [Int.compare_eq_gt.mpr more, Int.compare_eq_gt.mpr (Int.mul_lt_mul_of_pos_right above some)]

theorem equals_integers (i j : Int) :
    (int i).equals (int j) = decide (nearestInt i = nearestInt j) := by
  rw [equals, compare?_integers]
  by_cases same : nearestInt i = nearestInt j
  · simp [same]
  · have other : i ≠ j := fun equal => same (congrArg nearestInt equal)
    simp [same, other]

theorem compare?_integers_iff (i j : Int) :
    (int i).compare? (int j) = some (Ord.compare i j) ↔
      (nearestInt i = nearestInt j → i = j) := by
  rw [compare?_integers]
  by_cases same : nearestInt i = nearestInt j
  · rw [if_pos same, Option.some.injEq, eq_comm, Int.compare_eq_eq]
    exact ⟨fun equal _ => equal, fun equal => equal same⟩
  · rw [if_neg same]
    exact iff_of_true rfl fun equal => absurd equal same

end Value

theorem holds_integers (c : Comparator) (i j : Int) :
    (Relation.compare c).holds (some (.int i)) (.int j) =
      c.accepts (if nearestInt i = nearestInt j then .eq else Ord.compare i j) := by
  have compared := Value.compare?_integers i j
  cases c with
  | eq => simp only [Relation.holds, Comparator.holds, Value.equals, compared, Comparator.accepts]
  | ne => simp only [Relation.holds, Comparator.holds, Value.equals, compared, Comparator.accepts]; rfl
  | _ => simp only [Relation.holds, Comparator.holds, compared]

theorem oneOf_integers (i : Int) (js : List Int) :
    Relation.oneOf.holds (some (.int i)) (.array (js.map .int)) = true ↔
      ∃ k ∈ js, nearestInt i = nearestInt k := by
  simp only [Relation.holds, List.any_map, List.any_eq_true, Function.comp_apply,
    Value.equals_integers, decide_eq_true_eq]

/-- Two integers compare in their order exactly if they are equal or their nearest numbers of 53
significant bits are not; otherwise they are taken for equal, by every relation. This befalls only
integers from 2⁵³ on, and of 64 bits only such as are at most 2¹¹ apart. -/
theorem integers_ordered_unless_merged (i j : Int) :
    ((Value.int i).compare? (.int j) = some (Ord.compare i j) ↔
        (nearestInt i = nearestInt j → i = j)) ∧
      (∀ c, (Relation.compare c).holds (some (.int i)) (.int j) =
        c.accepts (if nearestInt i = nearestInt j then .eq else Ord.compare i j)) ∧
      (∀ js : List Int, Relation.oneOf.holds (some (.int i)) (.array (js.map .int)) = true ↔
        ∃ k ∈ js, nearestInt i = nearestInt k) ∧
      (nearestInt i = nearestInt j → i ≠ j → 2 ^ 53 ≤ i.natAbs ∧ 2 ^ 53 ≤ j.natAbs) ∧
      (i.natAbs < 2 ^ 64 → j.natAbs < 2 ^ 64 → nearestInt i = nearestInt j →
        (i - j).natAbs ≤ 2 ^ 11) := by
  refine ⟨Value.compare?_integers_iff i j, fun c => holds_integers c i j, oneOf_integers i,
    fun same other => ?_, fun bounded bounded' same => ?_⟩
  · exact ⟨long_of_nearestInt_eq same other, long_of_nearestInt_eq same.symm (Ne.symm other)⟩
  · have near := nearestInt_near bounded
    have near' := nearestInt_near bounded'
    rw [same] at near
    omega

/-- Below 2⁵³ integers come in their order, 2⁵³ and the integer after it do not, nor do the greatest
two of 64 bits. -/
theorem integers_ordered_unless_merged_of_bounds :
    (Value.int (2 ^ 53 - 1)).compare? (.int (2 ^ 53)) = some .lt ∧
      (2 ^ 53 ≤ (2 ^ 53 : Int).natAbs ∧ 2 ^ 53 ≤ (2 ^ 53 + 1 : Int).natAbs) ∧
      ((2 ^ 64 - 2 : Int) - (2 ^ 64 - 1)).natAbs ≤ 2 ^ 11 := by
  have apart : nearestInt (2 ^ 53 - 1) ≠ nearestInt (2 ^ 53) := by decide +kernel
  have merged : nearestInt (2 ^ 53) = nearestInt (2 ^ 53 + 1) := by decide +kernel
  have greatest : nearestInt (2 ^ 64 - 2) = nearestInt (2 ^ 64 - 1) := by decide +kernel
  exact ⟨(integers_ordered_unless_merged _ _).1.mpr fun same => absurd same apart,
    (integers_ordered_unless_merged _ _).2.2.2.1 merged (by decide),
    (integers_ordered_unless_merged _ _).2.2.2.2 (by decide) (by decide) greatest⟩

/-- A filter takes 2⁵³ and the integer after it for one. -/
theorem neighbours_merged : (Value.int (2 ^ 53)).compare? (.int (2 ^ 53 + 1)) ≠
      some (Ord.compare (2 ^ 53 : Int) (2 ^ 53 + 1)) ∧
    (Relation.compare .eq).holds (some (.int (2 ^ 53))) (.int (2 ^ 53 + 1)) = true ∧
    Relation.oneOf.holds (some (.int (2 ^ 53))) (.array [.int (2 ^ 53 + 1)]) = true := by
  decide +kernel

end StoreGateway

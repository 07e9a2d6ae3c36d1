import Mathlib.Tactic.Linarith
import Mathlib.Tactic.Ring
import StoreGateway.Json.Number

/-!
Reading the digits of a number back. The reader scales them in two roundings, which takes
1.7976931348623158e308 beyond the format, though the nearest number is within it. Main statement: the
shortest digits of a number of the format stay within the format when they are read.
-/

namespace StoreGateway

namespace Binary64

/-- A number that the format holds: below its limit, and of 53 significant bits. -/
structure Formed (x : Binary64) : Prop where
  bounded : x.steps < limit
  exact : gapAbove x.steps ∣ x.steps

def topGap : Nat := Nat.pow 2 2045

def overflow : Nat := limit - topGap / 2

theorem limits : 0 < stepsInOne ∧ 2 * stepsInOne < 10 ^ 400 ∧ topGap = 2 ^ 2045 ∧
    limit = 2 ^ 53 * topGap ∧ limit = 2 ^ 2098 ∧ limit = 2 * 2 ^ 2097 ∧
    2 * overflow + topGap = 2 * limit ∧ overflow < 10 ^ 309 * stepsInOne := by
  decide +kernel

theorem stepsInOne_pos : 0 < stepsInOne := limits.1

theorem stepsInOne_lt : 2 * stepsInOne < 10 ^ 400 := limits.2.1

theorem topGap_eq : topGap = 2 ^ 2045 := limits.2.2.1

theorem limit_eq : limit = 2 ^ 53 * topGap := limits.2.2.2.1

theorem limit_eq_power : limit = 2 ^ 2098 := limits.2.2.2.2.1

theorem limit_eq_twice : limit = 2 * 2 ^ 2097 := limits.2.2.2.2.2.1

theorem two_mul_overflow : 2 * overflow + topGap = 2 * limit := limits.2.2.2.2.2.2.1

theorem overflow_lt : overflow < 10 ^ 309 * stepsInOne := limits.2.2.2.2.2.2.2

theorem maxUInt64_lt : maxUInt64 * stepsInOne < overflow * 1 := by decide +kernel

theorem limit_le : limit ≤ 2 ^ 2098 := Nat.le_of_eq limit_eq_power

theorem overflow_le : overflow ≤ 2 ^ 2098 := Nat.le_trans (Nat.sub_le limit _) limit_le

theorem log2_lt_iff {n k : Nat} (nonzero : n ≠ 0) : n.log2 < k ↔ n < 2 ^ k := Nat.log2_lt nonzero

theorem roundQuotient_mul_le (num den : Nat) : 2 * (roundQuotient num den * den) ≤ 2 * num + den := by
  have whole := Nat.div_add_mod' num den
  unfold roundQuotient
  simp only
  split
  · omega
  · next up =>
    simp only [Bool.or_eq_true, Bool.and_eq_true, decide_eq_true_eq, beq_iff_eq, not_or,
      Nat.not_lt] at up
    rw [Nat.add_mul, Nat.one_mul]
    omega

theorem roundSteps_mul_le (num den : Nat) :
    2 * (roundSteps num den * den) ≤ 2 * num + den * 2 ^ ((num / den).log2 + 1 - 53) := by
  have bound := roundQuotient_mul_le num (den * 2 ^ ((num / den).log2 + 1 - 53))
  have same : roundSteps num den * den =
      roundQuotient num (den * 2 ^ ((num / den).log2 + 1 - 53)) *
        (den * 2 ^ ((num / den).log2 + 1 - 53)) := by
    unfold roundSteps
    simp only [Nat.pow_eq]
    ring
  rw [same]
  exact bound

theorem roundQuotient_mul (whole : Nat) {den : Nat} (some : 0 < den) :
    roundQuotient (whole * den) den = whole := by
  unfold roundQuotient
  simp [some, Nat.mul_div_cancel whole some]

theorem gapAbove_pos (steps : Nat) : 0 < gapAbove steps := Nat.pow_pos (by decide)

theorem roundSteps_one (num : Nat) :
    roundSteps num 1 = roundQuotient num (gapAbove num) * gapAbove num := by
  unfold roundSteps gapAbove
  simp only [Nat.div_one, Nat.one_mul]

theorem roundSteps_exact {num : Nat} (exact_ : gapAbove num ∣ num) : roundSteps num 1 = num := by
  obtain ⟨count, same⟩ := exact_
  rw [roundSteps_one]
  generalize gap : gapAbove num = unit at same ⊢
  have some : 0 < unit := gap ▸ gapAbove_pos num
  rw [same, Nat.mul_comm unit count, roundQuotient_mul count some]

theorem roundSteps_one_le (num : Nat) : roundSteps num 1 * 2 ^ 53 ≤ num * (2 ^ 53 + 1) := by
  by_cases short : num.log2 + 1 ≤ 53
  · have single : gapAbove num = 1 := by
      rw [gapAbove, Nat.sub_eq_zero_of_le short, Nat.pow_eq, Nat.pow_zero]
    rw [roundSteps_exact (single ▸ Nat.one_dvd num)]
    exact Nat.mul_le_mul_left num (Nat.le_succ _)
  · have bound := roundSteps_mul_le num 1
    rw [Nat.mul_one, Nat.div_one, Nat.one_mul] at bound
    have nonzero : num ≠ 0 := by
      rintro rfl
      exact short (by decide)
    have spare : 2 ^ (num.log2 + 1 - 53) * 2 ^ 52 ≤ num := by
      rw [← Nat.pow_add]
      have exponent : num.log2 + 1 - 53 + 52 = num.log2 := by omega
      rw [exponent]
      exact Nat.log2_self_le nonzero
    generalize roundSteps num 1 = rounded at *
    generalize 2 ^ (num.log2 + 1 - 53) = gap at *
    linarith

/-- What comes before the overflow is not rounded to the limit. -/
theorem roundSteps_lt {num den : Nat} (less : num < overflow * den) :
    roundSteps num den < limit := by
  have some : 0 < den := Nat.pos_of_ne_zero fun none => by
    rw [none, Nat.mul_zero] at less
    exact absurd less (Nat.not_lt_zero _)
  have bound := roundSteps_mul_le num den
  have bits : (num / den).log2 + 1 - 53 ≤ 2045 := by
    by_cases zero : num / den = 0
    · rw [zero]
      decide
    · have quotient : num / den < 2 ^ 2098 :=
        Nat.lt_of_lt_of_le ((Nat.div_lt_iff_lt_mul some).mpr less) overflow_le
      have bits := (log2_lt_iff zero).mpr quotient
      clear quotient
      omega
  have widest := Nat.le_of_eq topGap_eq.symm
  have spare := (pow_le_pow_right₀ (a := 2) (by decide) bits).trans widest
  have room := two_mul_overflow
  have total : 2 * (roundSteps num den * den) < 2 * limit * den := by
    rw [← room]
    generalize overflow = most at less ⊢
    generalize topGap = gap at spare ⊢
    calc 2 * (roundSteps num den * den)
      _ ≤ 2 * num + den * gap := Nat.le_trans bound (Nat.add_le_add_left (Nat.mul_le_mul_left den spare) _)
      _ < 2 * (most * den) + den * gap :=
        Nat.add_lt_add_right (Nat.mul_lt_mul_of_pos_left less (by decide)) _
      _ = (2 * most + gap) * den := by ring
  rw [← Nat.mul_assoc] at total
  exact Nat.lt_of_mul_lt_mul_left (Nat.lt_of_mul_lt_mul_right total)

def scaledSteps (digits exponent : Nat) : Nat :=
  roundSteps (roundSteps (digits * stepsInOne) 1 * roundSteps (10 ^ exponent * stepsInOne) 1) stepsInOne

/-- Both roundings together stay below the limit, unless the digits come close to it. -/
theorem scaledSteps_lt {digits exponent : Nat}
    (less : digits * (10 ^ exponent * stepsInOne) * (2 ^ 53 + 1) ^ 2 <
      overflow * 2 ^ 106) : scaledSteps digits exponent < limit := by
  refine roundSteps_lt ?_
  have first := roundSteps_one_le (digits * stepsInOne)
  have second := roundSteps_one_le (10 ^ exponent * stepsInOne)
  have both := Nat.mul_le_mul first second
  have square : (2 : Nat) ^ 106 = 2 ^ 53 * 2 ^ 53 := by decide
  have some := stepsInOne_pos
  generalize roundSteps (digits * stepsInOne) 1 = x at *
  generalize roundSteps (10 ^ exponent * stepsInOne) 1 = y at *
  generalize overflow = most at *
  generalize stepsInOne = one at *
  generalize (10 : Nat) ^ exponent = power at *
  refine Nat.lt_of_mul_lt_mul_right (a := 2 ^ 106) ?_
  calc x * y * 2 ^ 106
    _ = x * 2 ^ 53 * (y * 2 ^ 53) := by rw [square]; ring
    _ ≤ digits * one * (2 ^ 53 + 1) * (power * one * (2 ^ 53 + 1)) := both
    _ = digits * (power * one) * (2 ^ 53 + 1) ^ 2 * one := by ring
    _ < most * 2 ^ 106 * one := Nat.mul_lt_mul_of_pos_right less some
    _ = most * one * 2 ^ 106 := by ring

theorem scaledSteps_lt_of_le {digits most exponent : Nat} (few : digits ≤ most)
    (less : most * (10 ^ exponent * stepsInOne) * (2 ^ 53 + 1) ^ 2 <
      overflow * 2 ^ 106) : scaledSteps digits exponent < limit :=
  scaledSteps_lt (Nat.lt_of_le_of_lt
    (Nat.mul_le_mul_right _ (Nat.mul_le_mul_right _ few)) less)

/-- Digits that stand for a number within the format, but for the ones that the reader takes beyond
it. -/
structure Readable (digits exponent : Nat) : Prop where
  present : digits ≠ 0
  few : digits < 10 ^ 17
  within : digits * (10 ^ exponent * stepsInOne) ≤ overflow
  other : exponent = 292 → digits ≠ 17976931348623158

/-- Seventeen digits can come near the limit from an exponent of 292 on; from 293 on the digits that
come nearest leave room for both roundings. -/
theorem Readable.scaledSteps_lt {digits exponent : Nat} (readable : Readable digits exponent) :
    exponent ≤ 308 ∧ scaledSteps digits exponent < limit := by
  have unit : 0 < 10 ^ exponent * stepsInOne := Nat.mul_pos (Nat.pow_pos (by decide)) stepsInOne_pos
  have powers {low high : Nat} (le : low ≤ high) : 10 ^ low * stepsInOne ≤ 10 ^ high * stepsInOne :=
    Nat.mul_le_mul_right _ (Nat.pow_le_pow_right (by decide) le)
  have small : exponent ≤ 308 := by
    refine Nat.le_of_not_lt fun large => ?_
    have power := powers (show 309 ≤ exponent from large)
    have one : 10 ^ exponent * stepsInOne ≤ digits * (10 ^ exponent * stepsInOne) :=
      Nat.le_mul_of_pos_left _ (Nat.pos_of_ne_zero readable.present)
    exact absurd (Nat.le_trans power (Nat.le_trans one readable.within)) (Nat.not_le.mpr overflow_lt)
  refine ⟨small, ?_⟩
  have most : digits ≤ overflow / (10 ^ exponent * stepsInOne) :=
    (Nat.le_div_iff_mul_le unit).mpr readable.within
  rcases Nat.lt_trichotomy exponent 292 with low | rfl | high
  · have power := powers (Nat.le_of_lt_succ low)
    have far : 10 ^ 17 * (10 ^ 291 * stepsInOne) * (2 ^ 53 + 1) ^ 2 <
        overflow * 2 ^ 106 := by decide +kernel
    exact scaledSteps_lt_of_le (Nat.le_of_lt readable.few)
      (Nat.lt_of_le_of_lt (Nat.mul_le_mul_right _ (Nat.mul_le_mul_left _ power)) far)
  · have bound : overflow / (10 ^ 292 * stepsInOne) = 17976931348623158 := by
      decide +kernel
    rw [bound] at most
    have different := readable.other rfl
    by_cases near : digits ≤ 17976931348623154
    · refine scaledSteps_lt_of_le near ?_
      decide +kernel
    · have three : ∀ i < 3, scaledSteps (17976931348623155 + i) 292 < limit := by decide +kernel
      obtain ⟨i, rfl⟩ := Nat.exists_eq_add_of_le (show 17976931348623155 ≤ digits by omega)
      exact three i (by omega)
  · have room : ∀ i < 16, overflow / (10 ^ (293 + i) * stepsInOne) *
        (10 ^ (293 + i) * stepsInOne) * (2 ^ 53 + 1) ^ 2 < overflow * 2 ^ 106 := by
      decide +kernel
    obtain ⟨i, rfl⟩ := Nat.exists_eq_add_of_le (show 293 ≤ exponent by omega)
    exact scaledSteps_lt_of_le most (room i (by omega))

theorem tenTo_add (e : Int) (j : Nat) :
    (tenTo (e + j)).1 * (tenTo e).2 = (tenTo e).1 * (tenTo (e + j)).2 * 10 ^ j := by
  unfold tenTo
  by_cases low : 0 ≤ e
  · have high : 0 ≤ e + j := by omega
    have sum : (e + j).toNat = e.toNat + j := by omega
    simp only [if_pos low, if_pos high, sum, Nat.pow_eq, Nat.mul_one, Nat.pow_add]
  · by_cases high : 0 ≤ e + j
    · have sum : j = (e + j).toNat + (-e).toNat := by omega
      simp only [if_neg low, if_pos high, Nat.pow_eq, Nat.mul_one, Nat.one_mul, ← Nat.pow_add]
      rw [← sum]
    · have sum : (-e).toNat = (-(e + j)).toNat + j := by omega
      simp only [if_neg low, if_neg high, Nat.pow_eq, Nat.one_mul, sum, Nat.pow_add]

theorem tenTo_pos (e : Int) : 0 < (tenTo e).1 ∧ 0 < (tenTo e).2 := by
  unfold tenTo
  split
  · exact ⟨Nat.pow_pos (by decide), Nat.one_pos⟩
  · exact ⟨Nat.one_pos, Nat.pow_pos (by decide)⟩

theorem gapAbove_le {steps : Nat} (nonzero : steps ≠ 0) : gapAbove steps ≤ steps :=
  Nat.le_trans (Nat.pow_le_pow_right Nat.two_pos (by omega)) (Nat.log2_self_le nonzero)

theorem gapBelow_le {steps : Nat} (nonzero : steps ≠ 0) : gapBelow steps ≤ steps := by
  have gap := gapAbove_le nonzero
  unfold gapBelow
  split
  · exact Nat.max_le.mpr ⟨Nat.pos_of_ne_zero nonzero, Nat.le_trans (Nat.div_le_self _ _) gap⟩
  · exact gap

/-- What is read as a magnitude is not zero, and less than half a gap above it. -/
theorem reads_bounds {steps num den : Nat} (nonzero : steps ≠ 0) (some : 0 < den)
    (read : reads steps num den = true) :
    num ≠ 0 ∧ num ≤ (4 * steps + 2 * gapAbove steps) * den := by
  have low : 0 < (4 * steps - 2 * gapBelow steps) * den := by
    have gap := gapBelow_le nonzero
    exact Nat.mul_pos (by omega) some
  unfold reads at read
  simp only at read
  split at read
  · simp only [Bool.and_eq_true, decide_eq_true_eq] at read
    exact ⟨by omega, read.2⟩
  · simp only [Bool.and_eq_true, decide_eq_true_eq] at read
    exact ⟨by omega, Nat.le_of_lt read.2⟩

theorem roundQuotient_cases (num den : Nat) :
    roundQuotient num den = num / den ∨ roundQuotient num den = num / den + 1 := by
  unfold roundQuotient
  simp only
  split
  · exact .inl rfl
  · exact .inr rfl

/-- Digits that are found on a grid read back as the magnitude, and are next to it. -/
theorem onGrid_cases {steps : Nat} {exponent : Int} {found : Scaled}
    (grid : onGrid? steps exponent = some found) :
    found.exponent = exponent ∧
      found.digits ≤ steps * (tenTo exponent).2 / ((tenTo exponent).1 * stepsInOne) + 1 ∧
      reads steps (4 * found.digits * ((tenTo exponent).1 * stepsInOne)) (tenTo exponent).2 = true := by
  rcases power : tenTo exponent with ⟨num, den⟩
  unfold onGrid? at grid
  simp only [power] at grid ⊢
  generalize stepsInOne = one at grid ⊢
  split at grid
  · next below above =>
    cases grid
    rcases roundQuotient_cases (steps * den) (num * one) with same | same
    · rw [same]
      exact ⟨rfl, Nat.le_succ _, below⟩
    · rw [same]
      exact ⟨rfl, Nat.le_refl _, above⟩
  · next below above =>
    cases grid
    exact ⟨rfl, Nat.le_succ _, below⟩
  · next below above =>
    cases grid
    exact ⟨rfl, Nat.le_refl _, above⟩
  · cases grid

/-- Moving zeros into the exponent keeps the number. -/
theorem withoutTrailingZeros_cases (s : Scaled) :
    ∃ k : Nat, s.digits = s.withoutTrailingZeros.digits * 10 ^ k ∧
      s.withoutTrailingZeros.exponent = s.exponent + k ∧
      (s.digits ≠ 0 → s.withoutTrailingZeros.digits % 10 ≠ 0) := by
  induction s using Scaled.withoutTrailingZeros.induct with
  | case1 s zeros ih =>
    obtain ⟨k, digits, exponent, last⟩ := ih
    rw [Scaled.withoutTrailingZeros, dif_pos zeros]
    have tens : s.digits = s.digits / 10 * 10 := by omega
    refine ⟨k + 1, ?_, ?_, fun _ => last (by simp only; omega)⟩
    · rw [Nat.pow_succ, ← Nat.mul_assoc, ← digits]
      exact tens
    · rw [exponent]
      simp only
      omega
  | case2 s done =>
    rw [Scaled.withoutTrailingZeros, dif_neg done]
    refine ⟨0, by omega, by simp, fun nonzero last => done ⟨nonzero, last⟩⟩

theorem lt_decimalExponentBelow {steps : Nat} (bits : steps.log2 < 2098) :
    steps * (tenTo (decimalExponentBelow steps + 1 + 1)).2 <
      (tenTo (decimalExponentBelow steps + 1 + 1)).1 * stepsInOne := by
  let estimate (bits : Nat) : Nat × Nat := tenTo ((((bits : Int) - 1074) * 30103).fdiv 100000 + 1 + 1)
  have covered : ((List.range 2098).all fun bits =>
      Nat.ble (Nat.pow 2 (bits + 1) * (estimate bits).2) ((estimate bits).1 * stepsInOne)) = true := by
    decide +kernel
  have above := Nat.le_of_ble_eq_true (List.all_eq_true.mp covered _ (List.mem_range.mpr bits))
  exact Nat.lt_of_lt_of_le (Nat.mul_lt_mul_of_pos_right Nat.lt_log2_self (tenTo_pos _).2) above

theorem steps_lt_decimalExponent {steps : Nat} (bounded : steps < limit) :
    steps * (tenTo (decimalExponent steps + 1)).2 <
      (tenTo (decimalExponent steps + 1)).1 * stepsInOne := by
  rcases power : tenTo (decimalExponentBelow steps + 1) with ⟨num, den⟩
  unfold decimalExponent
  simp only [power]
  split
  · refine lt_decimalExponentBelow ?_
    by_cases zero : steps = 0
    · rw [zero]
      decide
    · exact (log2_lt_iff zero).mpr (Nat.lt_of_lt_of_le bounded limit_le)
  · next more =>
    rw [power]
    exact Nat.lt_of_not_le more

theorem Formed.cases {x : Binary64} (formed : x.Formed) (nonzero : x.steps ≠ 0) :
    2 * (4 * x.steps + 2 * gapAbove x.steps) < 6 * limit ∨
      ∃ k < 2 ^ 53, x.steps = k * topGap ∧ gapAbove x.steps = topGap := by
  by_cases high : x.steps.log2 = 2097
  · have gap : gapAbove x.steps = topGap := by
      unfold gapAbove
      rw [high, topGap_eq, Nat.pow_eq]
    obtain ⟨k, counted⟩ := formed.exact
    rw [gap, Nat.mul_comm] at counted
    refine .inr ⟨k, ?_, counted, gap⟩
    have bounded := formed.bounded
    rw [counted, limit_eq] at bounded
    exact Nat.lt_of_mul_lt_mul_right bounded
  · have bits := (log2_lt_iff nonzero).mpr (Nat.lt_of_lt_of_le formed.bounded limit_le)
    have half := limit_eq_twice
    have less : x.steps < 2 ^ 2097 := (log2_lt_iff nonzero).mp (by omega)
    have gap := gapAbove_le nonzero
    generalize limit = most at half ⊢
    generalize gapAbove x.steps = above at gap ⊢
    generalize (2 : Nat) ^ 2097 = power at less half
    left
    omega

/-- The steps of a number and half a gap above them come to the overflow at most. -/
theorem Formed.steps_le {x : Binary64} (formed : x.Formed) (nonzero : x.steps ≠ 0) :
    4 * x.steps + 2 * gapAbove x.steps ≤ 4 * overflow := by
  rcases formed.cases nonzero with small | ⟨k, few, counted, gap⟩
  · have room := two_mul_overflow
    have gaps := limit_eq
    generalize topGap = gap at room gaps
    generalize overflow = most at room ⊢
    generalize limit = beyond at small room gaps
    omega
  · have room : (4 * (2 ^ 53 - 1) + 2) * topGap = 4 * overflow := by
      have room := two_mul_overflow
      have gaps := limit_eq
      generalize topGap = gap at room gaps ⊢
      generalize overflow = most at room ⊢
      generalize limit = beyond at room gaps
      omega
    have most : 4 * k + 2 ≤ 4 * (2 ^ 53 - 1) + 2 :=
      Nat.add_le_add_right (Nat.mul_le_mul_left 4 (Nat.le_sub_one_of_lt few)) 2
    rw [gap, counted, ← room, ← Nat.mul_assoc, ← Nat.add_mul]
    exact Nat.mul_le_mul_right topGap most

/-- The digits that the reader takes beyond the format are the greatest number's at best. -/
theorem Formed.greatest {x : Binary64} (formed : x.Formed) (nonzero : x.steps ≠ 0)
    (close : 4 * (17976931348623158 * (10 ^ 292 * stepsInOne)) ≤
      4 * x.steps + 2 * gapAbove x.steps) : x.steps = (2 ^ 53 - 1) * topGap := by
  rcases formed.cases nonzero with small | ⟨k, few, counted, gap⟩
  · have far : 6 * limit ≤ 2 * (4 * (17976931348623158 * (10 ^ 292 * stepsInOne))) := by
      decide +kernel
    exact absurd (Nat.le_trans far (Nat.mul_le_mul_left 2 close)) (Nat.not_le.mpr small)
  · have next : (4 * (2 ^ 53 - 2) + 2) * topGap <
        4 * (17976931348623158 * (10 ^ 292 * stepsInOne)) := by decide +kernel
    have above := Nat.lt_of_lt_of_le next close
    rw [gap, counted, ← Nat.mul_assoc, ← Nat.add_mul] at above
    have last := Nat.lt_of_mul_lt_mul_right above
    have is : k = 2 ^ 53 - 1 := by
      clear counted gap above close next
      omega
    rw [counted, is]

theorem onGrid_greatest : ((List.range 17).findSome? fun (n : Nat) =>
    onGrid? ((2 ^ 53 - 1) * topGap) (decimalExponent ((2 ^ 53 - 1) * topGap) - n)) =
      some ⟨17976931348623157, 292⟩ := by
  decide +kernel

theorem shortest_eq (steps : Nat) : shortest steps =
    (((List.range 17).findSome? fun (n : Nat) => onGrid? steps (decimalExponent steps - n)).map
      Scaled.withoutTrailingZeros).getD ⟨steps, -1074⟩ := by
  -- The function is opened before it is applied: an application would be computed.
  obtain ⟨f, is⟩ : ∃ f, f = shortest := ⟨_, rfl⟩
  rw [← is]
  delta shortest at is
  have opened := congrFun is steps
  dsimp only at opened
  generalize (List.range 17).findSome? (fun (n : Nat) =>
    onGrid? steps (decimalExponent steps - n)) = found at opened ⊢
  rw [opened]
  cases found <;> rfl

theorem digits_le {steps n : Nat} (few : n < 17) (bounded : steps < limit) :
    let power := tenTo (decimalExponent steps - n)
    steps * power.2 / (power.1 * stepsInOne) + 1 ≤ 10 ^ 17 := by
  have above := steps_lt_decimalExponent bounded
  have shift := tenTo_add (decimalExponent steps - n) (n + 1)
  have sum : decimalExponent steps - (n : Int) + ((n + 1 : Nat) : Int) = decimalExponent steps + 1 := by
    omega
  rw [sum] at shift
  have some := tenTo_pos (decimalExponent steps + 1)
  have some' := tenTo_pos (decimalExponent steps - n)
  have one := stepsInOne_pos
  generalize tenTo (decimalExponent steps + 1) = top at *
  generalize tenTo (decimalExponent steps - n) = power at *
  generalize stepsInOne = unit at *
  obtain ⟨topNum, topDen⟩ := top
  obtain ⟨num, den⟩ := power
  simp only at *
  have less : steps * den < 10 ^ (n + 1) * (num * unit) := by
    refine Nat.lt_of_mul_lt_mul_right (a := topDen) ?_
    calc steps * den * topDen
      _ = steps * topDen * den := by ring
      _ < topNum * unit * den := Nat.mul_lt_mul_of_pos_right above some'.2
      _ = topNum * den * unit := by ring
      _ = num * topDen * 10 ^ (n + 1) * unit := by rw [shift]
      _ = 10 ^ (n + 1) * (num * unit) * topDen := by ring
  have quotient := (Nat.div_lt_iff_lt_mul (Nat.mul_pos some'.1 one)).mpr less
  exact Nat.le_trans quotient (Nat.pow_le_pow_right (by decide) (by omega))

theorem mul_stepsInOne_le {digits zeros most : Nat} {exponent : Int} (whole : 0 ≤ exponent + zeros)
    (within : 4 * (digits * 10 ^ zeros) * ((tenTo exponent).1 * stepsInOne) ≤
      most * (tenTo exponent).2) :
    4 * (digits * (10 ^ (exponent + zeros).toNat * stepsInOne)) ≤ most := by
  have shift := tenTo_add exponent zeros
  have some := tenTo_pos exponent
  have moved : tenTo (exponent + zeros) = (Nat.pow 10 (exponent + zeros).toNat, 1) := if_pos whole
  rw [moved] at shift
  generalize tenTo exponent = power at *
  generalize stepsInOne = unit at *
  generalize (exponent + zeros).toNat = place at *
  obtain ⟨num, den⟩ := power
  simp only [Nat.pow_eq, Nat.mul_one] at *
  refine Nat.le_of_mul_le_mul_right ?_ some.2
  calc 4 * (digits * (10 ^ place * unit)) * den
    _ = 4 * digits * (10 ^ place * den) * unit := by ring
    _ = 4 * digits * (num * 10 ^ zeros) * unit := by rw [shift]
    _ = 4 * (digits * 10 ^ zeros) * (num * unit) := by ring
    _ ≤ most * den := within

theorem readable_onGrid {x : Binary64} (formed : x.Formed) (nonzero : x.steps ≠ 0) {found : Scaled}
    (first : ((List.range 17).findSome? fun (n : Nat) =>
      onGrid? x.steps (decimalExponent x.steps - n)) = some found) :
    found.withoutTrailingZeros.digits ≠ 0 ∧ found.withoutTrailingZeros.digits < 10 ^ 17 ∧
      (0 ≤ found.withoutTrailingZeros.exponent →
        Readable found.withoutTrailingZeros.digits found.withoutTrailingZeros.exponent.toNat) := by
  obtain ⟨n, among, grid⟩ := List.exists_of_findSome?_eq_some first
  obtain ⟨place, near, read⟩ := onGrid_cases grid
  obtain ⟨k, zeros, moved, last⟩ := withoutTrailingZeros_cases found
  obtain ⟨something, within⟩ := reads_bounds nonzero (tenTo_pos _).2 read
  have present : found.digits ≠ 0 := fun none => something (by rw [none, Nat.mul_zero, Nat.zero_mul])
  have most := Nat.le_trans near (digits_le (List.mem_range.mp among) formed.bounded)
  have kept := last present
  rw [zeros] at present most within
  have digits : found.withoutTrailingZeros.digits ≠ 0 := fun none => present (by rw [none, Nat.zero_mul])
  have few : found.withoutTrailingZeros.digits < 10 ^ 17 := by
    have le : found.withoutTrailingZeros.digits ≤ 10 ^ 17 :=
      Nat.le_trans (Nat.le_mul_of_pos_right _ (Nat.pow_pos (by decide))) most
    refine Nat.lt_of_le_of_ne le fun same => kept ?_
    rw [same]
    rfl
  refine ⟨digits, few, fun whole => ?_⟩
  rw [moved, place] at whole ⊢
  have shown := mul_stepsInOne_le whole within
  refine ⟨digits, few, ?_, fun exponent same => ?_⟩
  · exact Nat.le_of_mul_le_mul_left (Nat.le_trans shown (formed.steps_le nonzero)) (by decide)
  · rw [exponent, same] at shown
    rw [formed.greatest nonzero shown, onGrid_greatest] at first
    cases first
    rw [same] at zeros
    have one : 17976931348623158 * 1 ≤ 17976931348623158 * 10 ^ k :=
      Nat.mul_le_mul_left _ (Nat.pow_pos (by decide))
    rw [← zeros] at one
    exact absurd one (by decide)

/-- The shortest digits of a number are such as the reader keeps within the format. -/
theorem shortest_cases {x : Binary64} (formed : x.Formed) (nonzero : x.steps ≠ 0) :
    shortest x.steps = ⟨x.steps, -1074⟩ ∨
      (shortest x.steps).digits ≠ 0 ∧ (shortest x.steps).digits < 10 ^ 17 ∧
        (0 ≤ (shortest x.steps).exponent →
          Readable (shortest x.steps).digits (shortest x.steps).exponent.toNat) := by
  rw [shortest_eq]
  cases first : (List.range 17).findSome? fun (n : Nat) =>
    onGrid? x.steps (decimalExponent x.steps - n) with
  | none => exact .inl rfl
  | some found => exact .inr (readable_onGrid formed nonzero first)

end Binary64

end StoreGateway

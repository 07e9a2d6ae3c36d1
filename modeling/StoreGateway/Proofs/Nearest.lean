import StoreGateway.Proofs.Rounding

/-!
Reading a number's digits to the nearest number of the format gives that number back. Main
statements: what lies where a number is the nearest is rounded to it, and seventeen digits always lie
there.
-/

namespace StoreGateway

namespace Binary64

theorem roundQuotient_eq {num den whole : Nat} (some : 0 < den)
    (low : 2 * (whole * den) ≤ 2 * num + den) (high : 2 * num ≤ 2 * (whole * den) + den)
    (odd : whole % 2 = 1 → 2 * (whole * den) < 2 * num + den ∧ 2 * num < 2 * (whole * den) + den) :
    roundQuotient num den = whole := by
  have parts := Nat.div_add_mod' num den
  unfold roundQuotient
  simp only [Bool.or_eq_true, Bool.and_eq_true, decide_eq_true_eq, beq_iff_eq]
  by_cases under : num < whole * den
  · -- The quotient is the whole number below, and what remains is half of the divisor or more.
    obtain ⟨before, rfl⟩ : ∃ before, whole = before + 1 :=
      Nat.exists_eq_succ_of_ne_zero fun none => by
        rw [none, Nat.zero_mul] at under
        exact Nat.not_lt_zero _ under
    rw [Nat.add_mul, Nat.one_mul] at *
    have quotient : num / den = before := Nat.div_eq_of_lt_le (by omega) (by
      rw [Nat.add_mul, Nat.one_mul]
      exact under)
    rw [quotient] at parts ⊢
    rw [if_neg]
    omega
  · have quotient : num / den = whole := Nat.div_eq_of_lt_le (by omega) (by
      rw [Nat.add_mul, Nat.one_mul]
      omega)
    rw [quotient] at parts ⊢
    rw [if_pos]
    omega

theorem gapBelow_pos (steps : Nat) : 0 < gapBelow steps := by
  unfold gapBelow
  split
  · exact Nat.lt_of_lt_of_le Nat.one_pos (Nat.le_max_left _ _)
  · exact gapAbove_pos steps

theorem gapBelow_power (bits : Nat) : gapBelow (2 ^ bits) = 2 ^ (bits - 53) := by
  unfold gapBelow gapAbove
  rw [Nat.log2_two_pow, Nat.pow_eq, if_pos rfl, Nat.pow_eq]
  by_cases high : 53 ≤ bits
  · have half : 2 ^ (bits + 1 - 53) / 2 = 2 ^ (bits - 53) := by
      rw [Nat.succ_sub high, Nat.pow_succ, Nat.mul_div_cancel _ (by decide)]
    rw [half, Nat.max_eq_right (Nat.pow_pos (by decide))]
  · have above : bits + 1 - 53 = 0 := by omega
    have below : bits - 53 = 0 := by omega
    rw [above, below]
    decide

theorem gapBelow_of_other {steps : Nat} (other : steps ≠ 2 ^ steps.log2) :
    gapBelow steps = gapAbove steps :=
  if_neg other

theorem gapBelow_le_gapAbove (steps : Nat) : gapBelow steps ≤ gapAbove steps := by
  unfold gapBelow
  split
  · exact Nat.max_le.mpr ⟨gapAbove_pos steps, Nat.div_le_self _ _⟩
  · exact Nat.le_refl _

theorem le_gapBelow (steps : Nat) : steps ≤ 2 ^ 53 * gapBelow steps := by
  by_cases power : steps = 2 ^ steps.log2
  · rw [power, gapBelow_power, ← Nat.pow_add]
    exact Nat.pow_le_pow_right (by decide) (by omega)
  · rw [gapBelow_of_other power]
    have less : steps < 2 ^ (steps.log2 + 1) := Nat.lt_log2_self
    have bits : 2 ^ (steps.log2 + 1) ≤ 2 ^ 53 * gapAbove steps := by
      unfold gapAbove
      rw [Nat.pow_eq, ← Nat.pow_add]
      exact Nat.pow_le_pow_right (by decide) (by omega)
    exact Nat.le_of_lt (Nat.lt_of_lt_of_le less bits)

theorem odd_gapAbove {steps : Nat} (odd : steps / gapBelow steps % 2 = 1) :
    steps / gapAbove steps % 2 = 1 := by
  by_cases power : steps = 2 ^ steps.log2
  · rw [power] at odd ⊢
    generalize steps.log2 = bits at odd ⊢
    rw [gapBelow_power] at odd
    unfold gapAbove
    rw [Nat.log2_two_pow, Nat.pow_eq]
    by_cases high : 53 ≤ bits
    · have even : 2 ^ bits / 2 ^ (bits - 53) = 2 ^ 53 := by
        rw [Nat.pow_div (by omega) (by decide)]
        congr 1
        omega
      rw [even] at odd
      exact absurd odd (by decide)
    · have below : bits - 53 = bits + 1 - 53 := by omega
      rw [← below]
      exact odd
  · rwa [gapBelow_of_other power] at odd

theorem gapBelow_dvd {steps : Nat} (exact_ : gapAbove steps ∣ steps) : gapBelow steps ∣ steps := by
  by_cases power : steps = 2 ^ steps.log2
  · rw [power, gapBelow_power]
    exact Nat.pow_dvd_pow 2 (by omega)
  · rwa [gapBelow_of_other power]

theorem add_gapAbove_le {steps : Nat} (exact_ : gapAbove steps ∣ steps) :
    steps + gapAbove steps ≤ 2 ^ (steps.log2 + 1) := by
  have less : steps < 2 ^ (steps.log2 + 1) := Nat.lt_log2_self
  have whole : gapAbove steps ∣ 2 ^ (steps.log2 + 1) := Nat.pow_dvd_pow 2 (by omega)
  obtain ⟨k, counted⟩ := exact_
  obtain ⟨n, power⟩ := whole
  rw [power] at less ⊢
  generalize gapAbove steps = gap at counted less ⊢
  rw [counted] at less ⊢
  have fewer : k + 1 ≤ n := Nat.lt_of_mul_lt_mul_left less
  calc gap * k + gap
    _ = gap * (k + 1) := by ring
    _ ≤ gap * n := Nat.mul_le_mul_left gap fewer

theorem power_add_gapAbove_le {steps : Nat} (nonzero : steps ≠ 0) (exact_ : gapAbove steps ∣ steps)
    (other : steps ≠ 2 ^ steps.log2) : 2 ^ steps.log2 + gapAbove steps ≤ steps := by
  have least : 2 ^ steps.log2 ≤ steps := Nat.log2_self_le nonzero
  have more : 2 ^ steps.log2 < steps := Nat.lt_of_le_of_ne least (Ne.symm other)
  have whole : gapAbove steps ∣ 2 ^ steps.log2 := Nat.pow_dvd_pow 2 (by omega)
  obtain ⟨k, counted⟩ := exact_
  obtain ⟨n, power⟩ := whole
  rw [power] at more ⊢
  generalize gapAbove steps = gap at counted more ⊢
  rw [counted] at more ⊢
  have fewer : n + 1 ≤ k := Nat.lt_of_mul_lt_mul_left more
  calc gap * n + gap
    _ = gap * (n + 1) := by ring
    _ ≤ gap * k := Nat.mul_le_mul_left gap fewer

theorem roundSteps_eq {steps num den bits : Nat} (some : 0 < den)
    (reaches : (num / den).log2 + 1 - 53 = bits) (gaps : 2 ^ bits ∣ steps)
    (low : 2 * (steps * den) ≤ 2 * num + den * 2 ^ bits)
    (high : 2 * num ≤ 2 * (steps * den) + den * 2 ^ bits)
    (odd : steps / 2 ^ bits % 2 = 1 → 2 * (steps * den) < 2 * num + den * 2 ^ bits ∧
      2 * num < 2 * (steps * den) + den * 2 ^ bits) :
    roundSteps num den = steps := by
  obtain ⟨k, rfl⟩ := gaps
  have gap : 0 < 2 ^ bits := Nat.pow_pos (by decide)
  have same : k * (den * 2 ^ bits) = 2 ^ bits * k * den := by ring
  rw [Nat.mul_div_cancel_left k gap] at odd
  rw [← same] at low high odd
  have rounded := roundQuotient_eq (Nat.mul_pos some gap) low high odd
  unfold roundSteps
  simp only [reaches, Nat.pow_eq]
  rw [rounded, Nat.mul_comm]

theorem lowest_mul {steps : Nat} (nonzero : steps ≠ 0) (den : Nat) :
    (4 * steps - 2 * gapBelow steps) * den + 2 * (gapBelow steps * den) = 4 * (steps * den) := by
  have below := gapBelow_le nonzero
  rw [← Nat.mul_assoc 2, ← Nat.add_mul, Nat.sub_add_cancel (by omega), Nat.mul_assoc]

theorem highest_mul (steps den : Nat) : (4 * steps + 2 * gapAbove steps) * den =
    4 * (steps * den) + 2 * (gapAbove steps * den) := by ring

theorem log2_div {num den bits : Nat} (some : 0 < den) (low : 2 ^ bits * den ≤ num)
    (high : num < 2 ^ (bits + 1) * den) : (num / den).log2 = bits := by
  have reached : 2 ^ bits ≤ num / den := (Nat.le_div_iff_mul_le some).mpr low
  have nonzero : num / den ≠ 0 :=
    Nat.ne_of_gt (Nat.lt_of_lt_of_le (Nat.pow_pos (by decide)) reached)
  exact (Nat.log2_eq_iff nonzero).mpr ⟨reached, (Nat.div_lt_iff_lt_mul some).mpr high⟩

theorem width_below {steps num den : Nat} (nonzero : steps ≠ 0) (some : 0 < den)
    (exact_ : gapAbove steps ∣ steps) (under : num < steps * den)
    (low : 2 * (steps * den) ≤ 2 * num + gapBelow steps * den) :
    2 ^ ((num / den).log2 + 1 - 53) = gapBelow steps := by
  by_cases power : steps = 2 ^ steps.log2
  · have below := gapBelow_le nonzero
    rw [power, gapBelow_power]
    congr 1
    generalize steps.log2 = bits at power
    subst power
    cases bits with
    | zero =>
      have none : num / den = 0 := Nat.div_eq_of_lt (by omega)
      rw [none]
      rfl
    | succ bits =>
      have twice : 2 ^ (bits + 1) * den = 2 * (2 ^ bits * den) := by ring
      have gap := Nat.mul_le_mul_right den below
      rw [log2_div some (by omega) under]
  · rw [gapBelow_of_other power] at low ⊢
    have above := Nat.mul_le_mul_right den (power_add_gapAbove_le nonzero exact_ power)
    have next : steps * den < 2 ^ (steps.log2 + 1) * den :=
      Nat.mul_lt_mul_of_pos_right Nat.lt_log2_self some
    rw [Nat.add_mul] at above
    rw [log2_div some (by omega) (Nat.lt_trans under next)]
    rfl

theorem width_above {steps num den : Nat} (nonzero : steps ≠ 0) (some : 0 < den)
    (exact_ : gapAbove steps ∣ steps) (reached : steps * den ≤ num)
    (high : 2 * num ≤ 2 * (steps * den) + gapAbove steps * den) :
    2 ^ ((num / den).log2 + 1 - 53) = gapAbove steps := by
  have least := Nat.mul_le_mul_right den (Nat.log2_self_le nonzero)
  have next := Nat.mul_le_mul_right den (add_gapAbove_le exact_)
  have gap := Nat.mul_pos (gapAbove_pos steps) some
  rw [Nat.add_mul] at next
  rw [log2_div some (Nat.le_trans least reached) (by omega)]
  rfl

theorem roundSteps_of_reads {steps num den : Nat} (nonzero : steps ≠ 0) (some : 0 < den)
    (exact_ : gapAbove steps ∣ steps) (read : reads steps (4 * num) den = true) :
    roundSteps num den = steps := by
  have lowest := lowest_mul nonzero den
  have highest := highest_mul steps den
  have within : 2 * (steps * den) ≤ 2 * num + gapBelow steps * den ∧
      2 * num ≤ 2 * (steps * den) + gapAbove steps * den ∧
      (steps / gapAbove steps % 2 = 1 → 2 * (steps * den) < 2 * num + gapBelow steps * den ∧
        2 * num < 2 * (steps * den) + gapAbove steps * den) := by
    unfold reads at read
    simp only [highest] at read
    split at read <;> simp only [Bool.and_eq_true, decide_eq_true_eq] at read <;> omega
  obtain ⟨low, high, odd⟩ := within
  by_cases under : num < steps * den
  · have width := width_below nonzero some exact_ under low
    refine roundSteps_eq some rfl ?_ ?_ ?_ ?_ <;> rw [width]
    · exact gapBelow_dvd exact_
    · rw [Nat.mul_comm den]
      exact low
    · rw [Nat.mul_comm den]
      omega
    · rw [Nat.mul_comm den]
      intro uneven
      have strict := odd (odd_gapAbove uneven)
      omega
  · have width := width_above nonzero some exact_ (Nat.le_of_not_lt under) high
    refine roundSteps_eq some rfl ?_ ?_ ?_ ?_ <;> rw [width]
    · exact exact_
    · omega
    · rw [Nat.mul_comm den]
      exact high
    · rw [Nat.mul_comm den]
      intro uneven
      have strict := odd uneven
      omega

/-- Fifty-three bits in front of some zeros are within the precision of the format. -/
theorem gapAbove_dvd {count bits : Nat} (few : count ≤ 2 ^ 53) :
    gapAbove (count * 2 ^ bits) ∣ count * 2 ^ bits := by
  unfold gapAbove
  rw [Nat.pow_eq]
  rcases Nat.lt_or_eq_of_le few with less | rfl
  · by_cases none : count * 2 ^ bits = 0
    · rw [none]
      exact Nat.dvd_zero _
    · refine Nat.dvd_trans (Nat.pow_dvd_pow 2 ?_) (Nat.dvd_mul_left _ _)
      have most : count * 2 ^ bits < 2 ^ (53 + bits) := by
        rw [Nat.pow_add]
        exact Nat.mul_lt_mul_of_pos_right less (Nat.pow_pos (by decide))
      have log := (log2_lt_iff none).mpr most
      omega
  · rw [← Nat.pow_add, Nat.log2_two_pow]
    exact Nat.pow_dvd_pow 2 (by omega)

/-- Rounding gives a magnitude within the precision of the format. -/
theorem gapAbove_roundSteps (num den : Nat) :
    gapAbove (roundSteps num den) ∣ roundSteps num den := by
  unfold roundSteps
  simp only [Nat.pow_eq]
  refine gapAbove_dvd ?_
  generalize gap : (num / den).log2 + 1 - 53 = bits
  have whole : num / (den * 2 ^ bits) < 2 ^ 53 := by
    rw [← Nat.div_div_eq_div_mul]
    refine (Nat.div_lt_iff_lt_mul (Nat.pow_pos (by decide))).mpr ?_
    rw [← Nat.pow_add]
    exact Nat.lt_of_lt_of_le Nat.lt_log2_self (Nat.pow_le_pow_right (by decide) (by omega))
  rcases roundQuotient_cases num (den * 2 ^ bits) with same | same <;> rw [same] <;> omega

theorem le_roundQuotient_mul (num : Nat) {den : Nat} (some : 0 < den) :
    2 * num ≤ 2 * (roundQuotient num den * den) + den := by
  have whole := Nat.div_add_mod' num den
  have rest := Nat.mod_lt num some
  unfold roundQuotient
  simp only
  split
  · next down =>
    simp only [Bool.or_eq_true, Bool.and_eq_true, decide_eq_true_eq, beq_iff_eq] at down
    omega
  · rw [Nat.add_mul, Nat.one_mul]
    omega

theorem roundQuotient_mono {num num' : Nat} (den : Nat) (le : num ≤ num') :
    roundQuotient num den ≤ roundQuotient num' den := by
  have quotients := Nat.div_le_div_right (c := den) le
  have parts := Nat.div_add_mod' num den
  have parts' := Nat.div_add_mod' num' den
  unfold roundQuotient
  simp only [Bool.or_eq_true, Bool.and_eq_true, decide_eq_true_eq, beq_iff_eq]
  rcases Nat.lt_or_eq_of_le quotients with less | same
  · split <;> split <;> omega
  · rw [same] at parts ⊢
    split <;> split <;> omega

theorem roundQuotient_scale (num den : Nat) {unit : Nat} (some : 0 < unit) :
    roundQuotient (num * unit) (den * unit) = roundQuotient num den := by
  have twice : 2 * (num % den * unit) = 2 * (num % den) * unit := by ring
  have less : 2 * (num % den) * unit < den * unit ↔ 2 * (num % den) < den :=
    Nat.mul_lt_mul_right some
  have equal : 2 * (num % den) * unit = den * unit ↔ 2 * (num % den) = den :=
    Nat.mul_left_inj (Nat.pos_iff_ne_zero.mp some)
  unfold roundQuotient
  simp only [Nat.mul_div_mul_right num den some, Nat.mul_mod_mul_right, twice, Bool.or_eq_true,
    Bool.and_eq_true, decide_eq_true_eq, beq_iff_eq, less, equal]

theorem roundSteps_short {n : Nat} (short : n ≤ 2 ^ 53) : roundSteps n 1 = n := by
  refine roundSteps_exact ?_
  have few : gapAbove (n * 2 ^ 0) ∣ n * 2 ^ 0 := gapAbove_dvd short
  rwa [Nat.pow_zero, Nat.mul_one] at few

theorem roundSteps_le {m n : Nat} (gaps : gapAbove m ∣ n) (le : m ≤ n) : roundSteps m 1 ≤ n := by
  obtain ⟨count, rfl⟩ := gaps
  rw [roundSteps_one, Nat.mul_comm (gapAbove m) count]
  rw [Nat.mul_comm] at le
  have rounded := roundQuotient_mono (gapAbove m) le
  rw [roundQuotient_mul count (gapAbove_pos m)] at rounded
  exact Nat.mul_le_mul_right _ rounded

theorem le_roundSteps {m n : Nat} (gaps : gapAbove n ∣ m) (le : m ≤ n) : m ≤ roundSteps n 1 := by
  obtain ⟨count, rfl⟩ := gaps
  rw [roundSteps_one, Nat.mul_comm (gapAbove n) count]
  rw [Nat.mul_comm] at le
  have rounded := roundQuotient_mono (gapAbove n) le
  rw [roundQuotient_mul count (gapAbove_pos n)] at rounded
  exact Nat.mul_le_mul_right _ rounded

theorem gapAbove_dvd_power {n bits : Nat} (le : n.log2 ≤ bits) : gapAbove n ∣ 2 ^ bits :=
  Nat.pow_dvd_pow 2 (by omega)

theorem log2_mono {m n : Nat} (le : m ≤ n) : m.log2 ≤ n.log2 := by
  rcases Nat.eq_zero_or_pos m with rfl | some
  · exact Nat.zero_le _
  · exact (Nat.le_log2 (by omega)).mpr (Nat.le_trans (Nat.log2_self_le (by omega)) le)

theorem roundSteps_mono {m n : Nat} (le : m ≤ n) : roundSteps m 1 ≤ roundSteps n 1 := by
  by_cases none : m = 0
  · rw [none, roundSteps_short (Nat.zero_le _)]
    exact Nat.zero_le _
  have present : n ≠ 0 := by omega
  have bits := log2_mono le
  rcases Nat.lt_or_eq_of_le bits with less | same
  · have below : m ≤ 2 ^ n.log2 :=
      Nat.le_of_lt (Nat.lt_of_lt_of_le Nat.lt_log2_self (Nat.pow_le_pow_right (by decide) less))
    calc roundSteps m 1
      _ ≤ 2 ^ n.log2 := roundSteps_le (gapAbove_dvd_power bits) below
      _ ≤ roundSteps n 1 :=
        le_roundSteps (gapAbove_dvd_power (Nat.le_refl _)) (Nat.log2_self_le present)
  · have gap : gapAbove m = gapAbove n := by
      unfold gapAbove
      rw [same]
    rw [roundSteps_one, roundSteps_one, gap]
    exact Nat.mul_le_mul_right _ (roundQuotient_mono _ le)

theorem log2_mul_power {n : Nat} (nonzero : n ≠ 0) (zeros : Nat) :
    (n * 2 ^ zeros).log2 = n.log2 + zeros := by
  have some : 0 < 2 ^ zeros := Nat.pow_pos (by decide)
  refine (Nat.log2_eq_iff (Nat.mul_ne_zero nonzero (Nat.pos_iff_ne_zero.mp some))).mpr ⟨?_, ?_⟩
  · rw [Nat.pow_add]
    exact Nat.mul_le_mul_right _ (Nat.log2_self_le nonzero)
  · rw [Nat.add_right_comm, Nat.pow_add]
    exact Nat.mul_lt_mul_of_pos_right Nat.lt_log2_self some

theorem roundSteps_scale (n zeros : Nat) :
    roundSteps (n * 2 ^ zeros) 1 = roundSteps n 1 * 2 ^ zeros := by
  by_cases short : n ≤ 2 ^ 53
  · rw [roundSteps_exact (gapAbove_dvd short), roundSteps_short short]
  · have nonzero : n ≠ 0 := by omega
    have long : 53 ≤ n.log2 := by
      refine Nat.le_of_not_lt fun less => ?_
      have small := (log2_lt_iff nonzero).mp less
      omega
    have gap : gapAbove (n * 2 ^ zeros) = gapAbove n * 2 ^ zeros := by
      unfold gapAbove
      rw [log2_mul_power nonzero, Nat.pow_eq, Nat.pow_eq, ← Nat.pow_add]
      congr 1
      omega
    rw [roundSteps_one, gap, roundQuotient_scale _ _ (Nat.pow_pos (by decide)), ← Nat.mul_assoc,
      ← roundSteps_one]

theorem stepsInOne_power : ∃ bits, stepsInOne = 2 ^ bits := ⟨1074, by decide +kernel⟩

theorem formed_of_finite {negative : Bool} {num den : Nat} {x : Binary64}
    (finite : finite? ⟨negative, roundSteps num den⟩ = some x) : x.Formed := by
  unfold finite? at finite
  split at finite
  · next bounded =>
    cases finite
    exact ⟨bounded, gapAbove_roundSteps _ _⟩
  · cases finite

theorem formed_whole (negative : Bool) {n : Nat} (most : n ≤ maxUInt64) :
    (ofRatio negative n 1).Formed :=
  ⟨roundSteps_lt (Nat.lt_of_le_of_lt (Nat.mul_le_mul_right _ most) maxUInt64_lt),
    gapAbove_roundSteps _ _⟩

theorem reads_of_near {steps num den : Nat}
    (low : (4 * steps - 2 * gapBelow steps) * den < num)
    (high : num < (4 * steps + 2 * gapAbove steps) * den) : reads steps num den = true := by
  unfold reads
  simp only
  split
  · rw [Bool.and_eq_true, decide_eq_true_eq, decide_eq_true_eq]
    exact ⟨Nat.le_of_lt low, Nat.le_of_lt high⟩
  · rw [Bool.and_eq_true, decide_eq_true_eq, decide_eq_true_eq]
    exact ⟨low, high⟩

theorem le_mul_congr (bound : Nat) {num den num' den' : Nat} (some : 0 < den) (some' : 0 < den')
    (same : num * den' = num' * den) : bound * den ≤ num ↔ bound * den' ≤ num' := by
  constructor
  · intro le
    refine Nat.le_of_mul_le_mul_right ?_ some
    calc bound * den' * den
      _ = bound * den * den' := by ring
      _ ≤ num * den' := Nat.mul_le_mul_right den' le
      _ = num' * den := same
  · intro le
    refine Nat.le_of_mul_le_mul_right ?_ some'
    calc bound * den * den'
      _ = bound * den' * den := by ring
      _ ≤ num' * den := Nat.mul_le_mul_right den le
      _ = num * den' := same.symm

theorem mul_le_congr (bound : Nat) {num den num' den' : Nat} (some : 0 < den) (some' : 0 < den')
    (same : num * den' = num' * den) : num ≤ bound * den ↔ num' ≤ bound * den' := by
  constructor
  · intro le
    refine Nat.le_of_mul_le_mul_right ?_ some
    calc num' * den
      _ = num * den' := same.symm
      _ ≤ bound * den * den' := Nat.mul_le_mul_right den' le
      _ = bound * den' * den := by ring
  · intro le
    refine Nat.le_of_mul_le_mul_right ?_ some'
    calc num * den'
      _ = num' * den := same
      _ ≤ bound * den' * den := Nat.mul_le_mul_right den le
      _ = bound * den * den' := by ring

theorem reads_congr {steps num den num' den' : Nat} (some : 0 < den) (some' : 0 < den')
    (same : num * den' = num' * den) : reads steps num den = reads steps num' den' := by
  have low := le_mul_congr (4 * steps - 2 * gapBelow steps) some some' same
  have high := mul_le_congr (4 * steps + 2 * gapAbove steps) some some' same
  have below := mul_le_congr (4 * steps - 2 * gapBelow steps) some some' same
  have above := le_mul_congr (4 * steps + 2 * gapAbove steps) some some' same
  unfold reads
  simp only [low, high, ← Nat.not_le, below, above]

/-- Zeros at the end of the digits can stand in the exponent. -/
theorem reads_shift (steps digits zeros : Nat) (exponent : Int) :
    reads steps (4 * (digits * 10 ^ zeros) * ((tenTo exponent).1 * stepsInOne)) (tenTo exponent).2 =
      reads steps (4 * digits * ((tenTo (exponent + zeros)).1 * stepsInOne))
        (tenTo (exponent + zeros)).2 := by
  refine reads_congr (tenTo_pos _).2 (tenTo_pos _).2 ?_
  have shift := tenTo_add exponent zeros
  calc 4 * (digits * 10 ^ zeros) * ((tenTo exponent).1 * stepsInOne) * (tenTo (exponent + zeros)).2
    _ = 4 * digits * stepsInOne *
        ((tenTo exponent).1 * (tenTo (exponent + zeros)).2 * 10 ^ zeros) := by ring
    _ = 4 * digits * stepsInOne * ((tenTo (exponent + zeros)).1 * (tenTo exponent).2) := by rw [shift]
    _ = 4 * digits * ((tenTo (exponent + zeros)).1 * stepsInOne) * (tenTo exponent).2 := by ring

theorem decimalExponentBelow_le {steps : Nat} (nonzero : steps ≠ 0) (bits : steps.log2 < 2098) :
    (tenTo (decimalExponentBelow steps)).1 * stepsInOne ≤
      steps * (tenTo (decimalExponentBelow steps)).2 := by
  let estimate (bits : Nat) : Nat × Nat := tenTo ((((bits : Int) - 1074) * 30103).fdiv 100000)
  have covered : ((List.range 2098).all fun bits =>
      Nat.ble ((estimate bits).1 * stepsInOne) (Nat.pow 2 bits * (estimate bits).2)) = true := by
    decide +kernel
  have least := Nat.le_of_ble_eq_true (List.all_eq_true.mp covered _ (List.mem_range.mpr bits))
  exact Nat.le_trans least (Nat.mul_le_mul_right _ (Nat.log2_self_le nonzero))

theorem decimalExponent_le {steps : Nat} (nonzero : steps ≠ 0) (bounded : steps < limit) :
    (tenTo (decimalExponent steps)).1 * stepsInOne ≤ steps * (tenTo (decimalExponent steps)).2 := by
  rcases power : tenTo (decimalExponentBelow steps + 1) with ⟨num, den⟩
  unfold decimalExponent
  simp only [power]
  split
  · next more =>
    rw [power]
    exact more
  · exact decimalExponentBelow_le nonzero
      ((log2_lt_iff nonzero).mpr (Nat.lt_of_lt_of_le bounded limit_le))

theorem unit_lt_gapBelow {steps : Nat} (nonzero : steps ≠ 0) (bounded : steps < limit) :
    let power := tenTo (decimalExponent steps - 16)
    power.1 * stepsInOne < gapBelow steps * power.2 := by
  have first := decimalExponent_le nonzero bounded
  have shift := tenTo_add (decimalExponent steps - 16) 16
  have sum : decimalExponent steps - 16 + ((16 : Nat) : Int) = decimalExponent steps := by omega
  rw [sum] at shift
  have some := (tenTo_pos (decimalExponent steps)).2
  have some' := (tenTo_pos (decimalExponent steps - 16)).2
  have gaps := le_gapBelow steps
  have gap := gapBelow_pos steps
  generalize tenTo (decimalExponent steps) = top at *
  generalize tenTo (decimalExponent steps - 16) = power at *
  generalize gapBelow steps = below at *
  generalize stepsInOne = unit at *
  obtain ⟨topNum, topDen⟩ := top
  obtain ⟨num, den⟩ := power
  simp only at *
  have digits : 10 ^ 16 * (num * unit) ≤ 2 ^ 53 * (below * den) := by
    refine Nat.le_of_mul_le_mul_right ?_ some
    calc 10 ^ 16 * (num * unit) * topDen
      _ = num * topDen * 10 ^ 16 * unit := by ring
      _ = topNum * den * unit := by rw [shift]
      _ = topNum * unit * den := by ring
      _ ≤ steps * topDen * den := Nat.mul_le_mul_right den first
      _ ≤ 2 ^ 53 * below * topDen * den :=
        Nat.mul_le_mul_right den (Nat.mul_le_mul_right topDen gaps)
      _ = 2 ^ 53 * (below * den) * topDen := by ring
  have positive : 0 < below * den := Nat.mul_pos gap some'
  generalize num * unit = small at digits ⊢
  generalize below * den = wide at digits positive ⊢
  omega

theorem reads_neighbour {steps den unit : Nat} (nonzero : steps ≠ 0) (some : 0 < unit)
    (fine : unit < gapBelow steps * den) :
    reads steps (4 * (steps * den / unit) * unit) den = true ∨
      reads steps (4 * (steps * den / unit + 1) * unit) den = true := by
  have lowest := lowest_mul nonzero den
  have highest := highest_mul steps den
  have wider := Nat.mul_le_mul_right den (gapBelow_le_gapAbove steps)
  have parts := Nat.div_add_mod' (steps * den) unit
  have rest := Nat.mod_lt (steps * den) some
  have here : 4 * (steps * den / unit) * unit = 4 * (steps * den / unit * unit) :=
    Nat.mul_assoc _ _ _
  have next : 4 * (steps * den / unit + 1) * unit = 4 * (steps * den / unit * unit) + 4 * unit := by
    ring
  generalize steps * den / unit * unit = whole at parts here next
  generalize steps * den % unit = remainder at parts rest
  by_cases nearer : 2 * remainder ≤ unit
  · left
    rw [here]
    apply reads_of_near
    · omega
    · rw [highest]
      omega
  · right
    rw [next]
    apply reads_of_near
    · omega
    · rw [highest]
      omega

theorem onGrid_of_reads {steps : Nat} {exponent : Int}
    (read : reads steps (4 * (steps * (tenTo exponent).2 / ((tenTo exponent).1 * stepsInOne)) *
        ((tenTo exponent).1 * stepsInOne)) (tenTo exponent).2 = true ∨
      reads steps (4 * (steps * (tenTo exponent).2 / ((tenTo exponent).1 * stepsInOne) + 1) *
        ((tenTo exponent).1 * stepsInOne)) (tenTo exponent).2 = true) :
    ∃ found, onGrid? steps exponent = some found := by
  unfold onGrid?
  obtain read | read := read
  · simp only [read]
    split
    · exact ⟨_, rfl⟩
    · exact ⟨_, rfl⟩
    · exact ⟨_, rfl⟩
    · contradiction
  · simp only [read]
    split
    · exact ⟨_, rfl⟩
    · exact ⟨_, rfl⟩
    · exact ⟨_, rfl⟩
    · contradiction

theorem onGrid_seventeenth {steps : Nat} (nonzero : steps ≠ 0) (bounded : steps < limit) :
    ∃ found, onGrid? steps (decimalExponent steps - 16) = some found := by
  have one := stepsInOne_pos
  have unit := Nat.mul_pos (tenTo_pos (decimalExponent steps - 16)).1 one
  exact onGrid_of_reads (reads_neighbour nonzero unit (unit_lt_gapBelow nonzero bounded))

/-- The digits that are found first, with their zeros moved to the exponent, read back. -/
theorem reads_shortest {x : Binary64} (formed : x.Formed) (nonzero : x.steps ≠ 0) :
    reads x.steps (4 * (shortest x.steps).digits *
      ((tenTo (shortest x.steps).exponent).1 * stepsInOne))
        (tenTo (shortest x.steps).exponent).2 = true := by
  rw [shortest_eq]
  cases first : (List.range 17).findSome? fun (n : Nat) =>
    onGrid? x.steps (decimalExponent x.steps - n) with
  | none =>
    obtain ⟨found, grid⟩ := onGrid_seventeenth nonzero formed.bounded
    have missed := List.findSome?_eq_none_iff.mp first 16 (by decide)
    exact absurd (grid.symm.trans missed) (Option.some_ne_none found)
  | some found =>
    obtain ⟨n, -, grid⟩ := List.exists_of_findSome?_eq_some first
    obtain ⟨place, -, read⟩ := onGrid_cases grid
    obtain ⟨zeros, digits, exponent, -⟩ := withoutTrailingZeros_cases found
    change reads x.steps (4 * found.withoutTrailingZeros.digits *
      ((tenTo found.withoutTrailingZeros.exponent).1 * stepsInOne))
        (tenTo found.withoutTrailingZeros.exponent).2 = true
    rw [exponent, ← reads_shift, ← digits, place]
    exact read

theorem lt_pow_length_toDigits (n : Nat) : n < 10 ^ (Nat.toDigits 10 n).length :=
  (Nat.length_toDigits_le_iff (by decide) (List.length_pos_iff.mpr Nat.toDigits_ne_nil)).mp
    (Nat.le_refl _)

theorem pow_length_toDigits_le {n : Nat} (nonzero : n ≠ 0) :
    10 ^ ((Nat.toDigits 10 n).length - 1) ≤ n := by
  have present := List.length_pos_iff.mpr (Nat.toDigits_ne_nil (b := 10) (n := n))
  by_cases single : (Nat.toDigits 10 n).length - 1 = 0
  · rw [single]
    exact Nat.pos_of_ne_zero nonzero
  · refine Nat.le_of_not_lt fun less => ?_
    have shorter := (Nat.length_toDigits_le_iff (by decide) (Nat.pos_of_ne_zero single)).mpr less
    omega

theorem le_of_reads {steps num den : Nat} (nonzero : steps ≠ 0)
    (read : reads steps num den = true) : 2 * den ≤ num := by
  have below := gapBelow_le nonzero
  have least : 2 * den ≤ (4 * steps - 2 * gapBelow steps) * den :=
    Nat.mul_le_mul_right den (by omega)
  unfold reads at read
  simp only at read
  split at read <;> simp only [Bool.and_eq_true, decide_eq_true_eq] at read <;> omega

theorem pow_le_tenTo {e : Int} {j k : Nat} (le : (k : Int) ≤ e + j) :
    10 ^ k * (tenTo e).2 ≤ 10 ^ j * (tenTo e).1 := by
  unfold tenTo
  split
  · rw [Nat.pow_eq, ← Nat.pow_add, Nat.mul_one]
    exact Nat.pow_le_pow_right (by decide) (by omega)
  · rw [Nat.pow_eq, ← Nat.pow_add, Nat.mul_one]
    exact Nat.pow_le_pow_right (by decide) (by omega)

theorem tenTo_le_pow {e : Int} {j k : Nat} (le : e + j ≤ (k : Int)) :
    10 ^ j * (tenTo e).1 ≤ 10 ^ k * (tenTo e).2 := by
  unfold tenTo
  split
  · rw [Nat.pow_eq, ← Nat.pow_add, Nat.mul_one]
    exact Nat.pow_le_pow_right (by decide) (by omega)
  · rw [Nat.pow_eq, ← Nat.pow_add, Nat.mul_one]
    exact Nat.pow_le_pow_right (by decide) (by omega)

theorem digits_ne_zero_of_reads {steps digits : Nat} (nonzero : steps ≠ 0) {exponent : Int}
    (read : reads steps (4 * digits * ((tenTo exponent).1 * stepsInOne)) (tenTo exponent).2 = true) :
    digits ≠ 0 := by
  intro none
  refine (reads_bounds nonzero (tenTo_pos exponent).2 read).1 ?_
  rw [none, Nat.mul_zero, Nat.zero_mul]

theorem le_place_of_reads {steps digits : Nat} (nonzero : steps ≠ 0) {exponent : Int}
    (read : reads steps (4 * digits * ((tenTo exponent).1 * stepsInOne)) (tenTo exponent).2 = true) :
    -400 ≤ exponent + (Nat.toDigits 10 digits).length := by
  have least := le_of_reads nonzero read
  have less := lt_pow_length_toDigits digits
  have small := stepsInOne_lt
  have one := stepsInOne_pos
  have positive := tenTo_pos exponent
  refine Int.not_lt.mp fun low => ?_
  have far := tenTo_le_pow (e := exponent) (j := (Nat.toDigits 10 digits).length + 400) (k := 0)
    (by omega)
  rw [Nat.pow_add, Nat.pow_zero, Nat.one_mul] at far
  generalize (Nat.toDigits 10 digits).length = length at less far
  generalize (10 : Nat) ^ 400 = wide at small far
  generalize tenTo exponent = power at *
  generalize stepsInOne = unit at *
  refine absurd least (Nat.not_le.mpr ?_)
  calc 4 * digits * (power.1 * unit)
    _ = 2 * (digits * (power.1 * (2 * unit))) := by ring
    _ < 2 * (10 ^ length * (power.1 * (2 * unit))) := Nat.mul_lt_mul_of_pos_left
      (Nat.mul_lt_mul_of_pos_right less (Nat.mul_pos positive.1 (by omega))) (by decide)
    _ ≤ 2 * (10 ^ length * (power.1 * wide)) := Nat.mul_le_mul_left 2
      (Nat.mul_le_mul_left _ (Nat.mul_le_mul_left _ (Nat.le_of_lt small)))
    _ = 2 * (10 ^ length * wide * power.1) := by ring
    _ ≤ 2 * power.2 := Nat.mul_le_mul_left 2 far

theorem place_le_of_reads {x : Binary64} (formed : x.Formed) (nonzero : x.steps ≠ 0) {digits : Nat}
    {exponent : Int} (read : reads x.steps (4 * digits * ((tenTo exponent).1 * stepsInOne))
      (tenTo exponent).2 = true) : exponent + (Nat.toDigits 10 digits).length ≤ 400 := by
  have most := (reads_bounds nonzero (tenTo_pos _).2 read).2
  have within := Nat.le_trans most (Nat.mul_le_mul_right _ (formed.steps_le nonzero))
  have more := pow_length_toDigits_le (digits_ne_zero_of_reads nonzero read)
  have present := List.length_pos_iff.mpr (Nat.toDigits_ne_nil (b := 10) (n := digits))
  have positive := tenTo_pos exponent
  have large : overflow < 10 ^ 400 * stepsInOne := by
    have wider {low high : Nat} (le : low ≤ high) : 10 ^ low * stepsInOne ≤ 10 ^ high * stepsInOne :=
      Nat.mul_le_mul_right _ (Nat.pow_le_pow_right (by decide) le)
    exact Nat.lt_of_lt_of_le overflow_lt (wider (by decide))
  refine Int.not_lt.mp fun high => ?_
  have far := pow_le_tenTo (e := exponent) (j := (Nat.toDigits 10 digits).length - 1) (k := 400)
    (by omega)
  generalize (Nat.toDigits 10 digits).length - 1 = length at more far
  generalize (10 : Nat) ^ 400 = wide at large far
  generalize tenTo exponent = power at *
  generalize stepsInOne = unit at *
  generalize overflow = beyond at *
  refine absurd within (Nat.not_le.mpr ?_)
  calc 4 * beyond * power.2
    _ < 4 * (wide * unit) * power.2 :=
      Nat.mul_lt_mul_of_pos_right (Nat.mul_lt_mul_of_pos_left large (by decide)) positive.2
    _ = 4 * (wide * power.2) * unit := by ring
    _ ≤ 4 * (10 ^ length * power.1) * unit :=
      Nat.mul_le_mul_right unit (Nat.mul_le_mul_left 4 far)
    _ = 4 * 10 ^ length * (power.1 * unit) := by ring
    _ ≤ 4 * digits * (power.1 * unit) :=
      Nat.mul_le_mul_right _ (Nat.mul_le_mul_left 4 more)

theorem place_of_reads {x : Binary64} (formed : x.Formed) (nonzero : x.steps ≠ 0) {digits : Nat}
    {exponent : Int} (read : reads x.steps (4 * digits * ((tenTo exponent).1 * stepsInOne))
      (tenTo exponent).2 = true) :
    digits ≠ 0 ∧ -400 ≤ exponent + (Nat.toDigits 10 digits).length ∧
      exponent + (Nat.toDigits 10 digits).length ≤ 400 :=
  ⟨digits_ne_zero_of_reads nonzero read, le_place_of_reads nonzero read,
    place_le_of_reads formed nonzero read⟩

/-- Digits that lie where a number is the nearest are read as it. -/
theorem nearest_of_reads {x : Binary64} (formed : x.Formed) (nonzero : x.steps ≠ 0) {digits : Nat}
    {exponent : Int} (read : reads x.steps (4 * digits * ((tenTo exponent).1 * stepsInOne))
      (tenTo exponent).2 = true) :
    Decimal.nearest? x.negative digits exponent = some x := by
  obtain ⟨some, low, high⟩ := place_of_reads formed nonzero read
  have finite : x.finite? = Option.some x := by
    unfold finite?
    split
    · rfl
    · next beyond => exact absurd formed.bounded beyond
  rw [Nat.mul_assoc 4 digits] at read
  have rounded := roundSteps_of_reads nonzero (tenTo_pos exponent).2 formed.exact read
  unfold Decimal.nearest?
  rw [if_neg (by omega), if_neg (by omega)]
  unfold tenTo at rounded
  split
  · next whole =>
    rw [if_pos whole, ← Nat.mul_assoc] at rounded
    unfold ofRatio
    rw [rounded]
    exact finite
  · next fraction =>
    rw [if_neg fraction, Nat.one_mul] at rounded
    unfold ofRatio
    rw [rounded]
    exact finite

end Binary64

end StoreGateway

import StoreGateway.Proofs.Literals
import StoreGateway.Proofs.Rounding

/-!
Values are kept as text and read back from it. Main statement: what holds only numbers of the format
and is nested no deeper than texts are read can be read back, so that nothing that was kept is lost to
the reader.
-/

namespace StoreGateway

namespace Json

/-- An exponent, by whether it is negative and its digits. -/
abbrev Power := Bool × List Char

def Power.value (power : Power) : Int :=
  if power.1 then -(Decimal.natOfDigits power.2 : Int) else Decimal.natOfDigits power.2

/-- The parts of a numeral: its digits before and after a point, and its exponent. -/
structure Spelling where
  whole : List Char
  fraction : Option (List Char)
  power : Option Power

namespace Spelling

def fractionChars : Option (List Char) → List Char
  | none => []
  | some digits => '.' :: digits

def powerChars : Option Power → List Char
  | none => []
  | some power => 'e' :: (if power.1 then '-' else '+') :: power.2

def chars (s : Spelling) : List Char := s.whole ++ (fractionChars s.fraction ++ powerChars s.power)

def numeral (s : Spelling) (negative : Bool) : Numeral :=
  ⟨negative, s.whole, s.fraction, s.power.map Power.value⟩

/-- All parts that are there have digits, and no zero is in front of others. -/
structure Proper (s : Spelling) : Prop where
  whole : (∀ c ∈ s.whole, c.isDigit = true) ∧ s.whole ≠ []
  first : s.whole.length = 1 ∨ s.whole.head? ≠ some '0'
  fraction : ∀ digits, s.fraction = some digits → (∀ c ∈ digits, c.isDigit = true) ∧ digits ≠ []
  power : ∀ power, s.power = some power → (∀ c ∈ power.2, c.isDigit = true) ∧ power.2 ≠ []

/-- What follows digits does not start with one. -/
def Follows (rest : List Char) : Prop := ∀ c, rest.head? = some c → c.isDigit = false

theorem follows_nil : Follows [] := fun c first => by cases first

theorem takeWhile_digits {digits rest : List Char} (all : ∀ c ∈ digits, c.isDigit = true)
    (follows : Follows rest) : (digits ++ rest).takeWhile Char.isDigit = digits ∧
      (digits ++ rest).dropWhile Char.isDigit = rest := by
  have none : rest.takeWhile Char.isDigit = [] ∧ rest.dropWhile Char.isDigit = rest := by
    cases rest with
    | nil => exact ⟨rfl, rfl⟩
    | cons c rest =>
      have other := follows c rfl
      simp [other]
  rw [List.takeWhile_append_of_pos all, List.dropWhile_append_of_pos all, none.1, none.2,
    List.append_nil]
  exact ⟨rfl, rfl⟩

theorem follows_power (power : Option Power) : Follows (powerChars power) := by
  intro c first
  cases power with
  | none => cases first
  | some power =>
    cases first
    rfl

theorem follows_fraction (fraction : Option (List Char)) (power : Option Power) :
    Follows (fractionChars fraction ++ powerChars power) := by
  cases fraction with
  | none => exact follows_power power
  | some digits =>
    intro c first
    cases first
    rfl

theorem readFraction_digits {digits rest : List Char} (all : ∀ c ∈ digits, c.isDigit = true)
    (some : digits ≠ []) (follows : Follows rest) :
    readFraction (digits ++ rest) = .ok (digits, rest) := by
  obtain ⟨taken, dropped⟩ := takeWhile_digits all follows
  obtain ⟨c, more, rfl⟩ := List.exists_cons_of_ne_nil some
  rw [readFraction, taken, dropped]

theorem readExponent_power {power : Power} (all : ∀ c ∈ power.2, c.isDigit = true)
    (some : power.2 ≠ []) :
    readExponent ((if power.1 then '-' else '+') :: power.2) = .ok (power.value, []) := by
  obtain ⟨taken, dropped⟩ := takeWhile_digits all follows_nil
  rw [List.append_nil] at taken dropped
  obtain ⟨negative, digits⟩ := power
  obtain ⟨c, more, rfl⟩ := List.exists_cons_of_ne_nil some
  cases negative with
  | true =>
    simp only [readExponent, Decimal.splitSign, if_true, taken, dropped]
    rfl
  | false =>
    simp only [readExponent, Decimal.splitSign, Bool.false_eq_true, if_false, taken, dropped]
    rfl

theorem readUnsigned_chars {s : Spelling} (proper : s.Proper) (negative : Bool) :
    readUnsigned negative s.chars = .ok (s.numeral negative, []) := by
  obtain ⟨whole, fraction, power⟩ := s
  obtain ⟨⟨digits, present⟩, first, fractional, powered⟩ := proper
  obtain ⟨taken, dropped⟩ := takeWhile_digits digits (follows_fraction fraction power)
  have leading : ¬ (whole.length ≠ 1 ∧ whole.head? = some '0') := fun both =>
    first.elim both.1 fun other => other both.2
  unfold readUnsigned chars
  simp only [taken, dropped, if_neg present, if_neg leading]
  cases fraction with
  | none =>
    cases power with
    | none => rfl
    | some power =>
      obtain ⟨all, some⟩ := powered power rfl
      have read := readExponent_power all some
      simp only [fractionChars, powerChars, List.nil_append]
      generalize (if power.1 then '-' else '+') :: power.2 = rest at read ⊢
      change (readExponent rest >>= _) = _
      rw [read]
      rfl
  | some part =>
    obtain ⟨all, some⟩ := fractional part rfl
    have read := readFraction_digits all some (follows_power power)
    simp only [fractionChars, List.cons_append, bind, Except.bind, pure, Except.pure, read]
    cases power with
    | none => rfl
    | some power =>
      obtain ⟨all, some⟩ := powered power rfl
      have read := readExponent_power all some
      simp only [powerChars]
      generalize (if power.1 then '-' else '+') :: power.2 = rest at read ⊢
      change (readExponent rest >>= _) = _
      rw [read]
      rfl

end Spelling

theorem le_foldl_digits (cs : List Char) (n : Nat) :
    n ≤ cs.foldl (fun n c => n * 10 + Decimal.digitValue c) n := by
  induction cs generalizing n with
  | nil => exact Nat.le_refl n
  | cons c cs ih =>
    rw [List.foldl_cons]
    exact Nat.le_trans (by omega) (ih _)

theorem absorb_all {cs : List Char} {n : Nat}
    (fits : cs.foldl (fun n c => n * 10 + Decimal.digitValue c) n ≤ maxUInt64) :
    absorb n cs = (cs.foldl (fun n c => n * 10 + Decimal.digitValue c) n, cs.length) := by
  induction cs generalizing n with
  | nil => rfl
  | cons c cs ih =>
    rw [List.foldl_cons] at fits
    have next := Nat.le_trans (le_foldl_digits cs _) fits
    rw [absorb]
    simp only [if_pos next, ih fits]
    rfl

theorem digitValue_le {c : Char} (is : c.isDigit = true) : Decimal.digitValue c ≤ 9 := by
  have codes : c.val ≥ '0'.val ∧ c.val ≤ '9'.val := by
    simpa [Char.isDigit] using is
  have high : c.toNat ≤ '9'.toNat := codes.2
  have nine : '9'.toNat = 57 := rfl
  have zero : '0'.toNat = 48 := rfl
  unfold Decimal.digitValue
  omega

theorem foldl_digits_lt {cs : List Char} (digits : ∀ c ∈ cs, c.isDigit = true) {n bound : Nat}
    (less : n < bound) :
    cs.foldl (fun n c => n * 10 + Decimal.digitValue c) n < bound * 10 ^ cs.length := by
  induction cs generalizing n bound with
  | nil => simpa using less
  | cons c cs ih =>
    have digit := digitValue_le (digits c List.mem_cons_self)
    have next : n * 10 + Decimal.digitValue c < bound * 10 := by omega
    have rest := ih (fun c member => digits c (List.mem_cons_of_mem _ member)) next
    rw [List.foldl_cons, List.length_cons, Nat.pow_succ', ← Nat.mul_assoc]
    exact rest

theorem natOfDigits_lt {cs : List Char} (digits : ∀ c ∈ cs, c.isDigit = true) :
    Decimal.natOfDigits cs < 10 ^ cs.length := by
  have less := foldl_digits_lt digits Nat.one_pos
  rwa [Nat.one_mul] at less

theorem absorb_some {cs : List Char} {n : Nat} (digits : ∀ c ∈ cs, c.isDigit = true)
    (present : cs ≠ []) (room : n < 10 ^ 17) : 1 ≤ (absorb n cs).2 := by
  obtain ⟨c, more, rfl⟩ := List.exists_cons_of_ne_nil present
  have digit := digitValue_le (digits c List.mem_cons_self)
  have most : 10 ^ 18 ≤ maxUInt64 := by decide
  have next : n * 10 + Decimal.digitValue c ≤ maxUInt64 := by omega
  rw [absorb]
  simp only [if_pos next]
  exact Nat.succ_le_succ (Nat.zero_le _)

theorem absorb_few {cs : List Char} (digits : ∀ c ∈ cs, c.isDigit = true) (few : cs.length ≤ 17) :
    absorb 0 cs = (Decimal.natOfDigits cs, cs.length) := by
  refine absorb_all (Nat.le_of_lt (Nat.lt_of_lt_of_le (natOfDigits_lt digits) ?_))
  exact Nat.le_trans (Nat.pow_le_pow_right (by decide) few) (by decide)

theorem digitChar_ne_zero {n : Nat} (nonzero : n ≠ 0) (few : n < 10) : n.digitChar ≠ '0' := by
  have all : ∀ n < 10, n ≠ 0 → n.digitChar ≠ '0' := by decide
  exact all n few nonzero

/-- No number is written with a zero in front. -/
theorem head_toDigits {n : Nat} (nonzero : n ≠ 0) : (Nat.toDigits 10 n).head? ≠ some '0' := by
  induction n using Nat.strongRecOn with
  | ind n ih =>
    rw [Nat.toDigits_eq_if (b := 10) (by decide)]
    split
    · next few => exact fun same => digitChar_ne_zero nonzero few (Option.some.inj same)
    · next many =>
      obtain ⟨c, front, same⟩ := List.exists_cons_of_ne_nil (Nat.toDigits_ne_nil (n := n / 10) (b := 10))
      have first := ih (n / 10) (by omega) (by omega)
      rw [same] at first ⊢
      exact first

theorem floatOfParts_negative (negative : Bool) (digits : Nat) {exponent : Int} (low : exponent < 0) :
    ∃ y, floatOfParts negative digits exponent = .ok y := by
  unfold floatOfParts
  exact ⟨_, if_pos low⟩

theorem floatOfParts_readable (negative : Bool) {digits : Nat} {exponent : Int} (high : 0 ≤ exponent)
    (readable : Binary64.Readable digits exponent.toNat) :
    ∃ y, floatOfParts negative digits exponent = .ok y := by
  obtain ⟨small, less⟩ := readable.scaledSteps_lt
  have low : ¬ exponent < 0 := Int.not_lt.mpr high
  have within : exponent ≤ 308 := by omega
  have finite : ∃ y, (Binary64.mul (Binary64.ofRatio negative digits 1)
      (tenToThe exponent.toNat)).finite? = some y := ⟨_, if_pos less⟩
  unfold floatOfParts
  simp only [if_neg low, if_pos within]
  obtain ⟨y, is⟩ := finite
  rw [is]
  exact ⟨y, rfl⟩

theorem value_float {n : Numeral} (float : n.fraction ≠ none ∨ n.exponent ≠ none) {y : Binary64}
    (scaled : floatOfParts n.negative (absorb (absorb 0 n.whole).1 (n.fraction.getD [])).1
      (n.exponent.getD 0 + (n.whole.length - (absorb 0 n.whole).2 : Nat) -
        (absorb (absorb 0 n.whole).1 (n.fraction.getD [])).2) = .ok y) :
    n.value = .ok (.float y) := by
  have other : ¬ (n.fraction = none ∧ n.exponent = none ∧
      (absorb 0 n.whole).2 = n.whole.length) := fun all =>
    float.elim (fun there => there all.1) fun there => there all.2.1
  unfold Numeral.value
  simp only [if_neg other, scaled]
  rfl

/-- A spelling that is read as a float. -/
structure Spelling.Float (s : Spelling) : Prop where
  proper : s.Proper
  marked : s.fraction ≠ none ∨ s.power ≠ none
  value : ∀ negative, ∃ y, (s.numeral negative).value = .ok (.float y)

def Spelling.digits (s : Spelling) : List Char := s.whole ++ s.fraction.getD []

def Spelling.place (s : Spelling) : Int :=
  (s.power.map Power.value).getD 0 - (s.fraction.getD []).length

/-- A spelling of a number, with zeros behind its digits or without. -/
def Spelling.Spells (s : Spelling) (number : Scaled) : Prop :=
  ∃ zeros : Nat, Decimal.natOfDigits s.digits = number.digits * 10 ^ zeros ∧
    s.place + zeros = number.exponent

section

variable {ds : List Char}

theorem float_of_fraction {whole fraction : List Char}
    (digits : ∀ c ∈ whole, c.isDigit = true) (present : whole ≠ [])
    (first : whole.length = 1 ∨ whole.head? ≠ some '0') (few : whole.length ≤ 16)
    (more : ∀ c ∈ fraction, c.isDigit = true) (there : fraction ≠ []) :
    (Spelling.mk whole (some fraction) none).Float := by
  refine ⟨⟨⟨digits, present⟩, first, fun _ same => ?_, fun _ same => by cases same⟩,
    .inl (Option.some_ne_none fraction), fun negative => ?_⟩
  · cases same
    exact ⟨more, there⟩
  · have all := absorb_few digits (Nat.le_succ_of_le few)
    have less : Decimal.natOfDigits whole < 10 ^ 17 := Nat.lt_of_lt_of_le (natOfDigits_lt digits)
      (Nat.pow_le_pow_right (by decide) (Nat.le_succ_of_le few))
    have taken := absorb_some more there less
    have low : 0 + ((whole.length - whole.length : Nat) : Int) -
        (absorb (Decimal.natOfDigits whole) fraction).2 < 0 := by
      omega
    obtain ⟨y, is⟩ := floatOfParts_negative negative
      (absorb (Decimal.natOfDigits whole) fraction).1 low
    refine ⟨y, value_float (.inl (by exact Option.some_ne_none fraction)) ?_⟩
    change floatOfParts negative (absorb (absorb 0 whole).1 fraction).1
      (0 + ((whole.length - (absorb 0 whole).2 : Nat) : Int) -
        (absorb (absorb 0 whole).1 fraction).2) = _
    rw [all]
    exact is

theorem natOfDigits_zeros (ds : List Char) (zeros : Nat) :
    Decimal.natOfDigits (ds ++ List.replicate zeros '0') = Decimal.natOfDigits ds * 10 ^ zeros := by
  induction zeros with
  | zero => simp
  | succ zeros ih =>
    unfold Decimal.natOfDigits at ih ⊢
    rw [List.replicate_succ', ← List.append_assoc, List.foldl_append, ih]
    change Decimal.natOfDigits ds * 10 ^ zeros * 10 + 0 = _
    rw [Nat.add_zero, Nat.mul_assoc, Nat.pow_succ]
    rfl

theorem natOfDigits_padded (zeros : Nat) (ds : List Char) :
    Decimal.natOfDigits (List.replicate zeros '0' ++ ds) = Decimal.natOfDigits ds := by
  have front := natOfDigits_zeros [] zeros
  rw [List.nil_append] at front
  unfold Decimal.natOfDigits at front ⊢
  rw [List.foldl_append, front, List.foldl_nil, Nat.zero_mul]

theorem replicate_front (digits : ∀ c ∈ ds, c.isDigit = true) (zeros : Nat) :
    ∀ c ∈ List.replicate zeros '0' ++ ds, c.isDigit = true :=
  fun c member => (List.mem_append.mp member).elim (Literal.isDigit_zeros _ c) (digits c)

theorem float_positional (digits : ∀ c ∈ ds, c.isDigit = true) (present : ds ≠ [])
    (first : ds.head? ≠ some '0') {lead : Nat} (few : lead < 16) :
    (Spelling.mk (ds.take (lead + 1) ++ List.replicate (lead + 1 - (ds.take (lead + 1)).length) '0')
      (some (if ds.drop (lead + 1) = [] then ['0'] else ds.drop (lead + 1))) none).Float := by
  obtain ⟨c, more, rfl⟩ := List.exists_cons_of_ne_nil present
  refine float_of_fraction (Binary64.isDigit_front digits _ (Literal.isDigit_zeros _))
    (by simp) (.inr ?_) ?_ ?_ ?_
  · exact first
  · rw [List.length_append, List.length_replicate, List.length_take]
    omega
  · split
    · exact Literal.isDigit_zeros 1
    · exact fun d member => digits d (List.mem_of_mem_drop member)
  · split
    · decide
    · assumption

theorem spells_positional {lead : Nat} {exponent : Int} (place : exponent = lead + 1 - ds.length) :
    (Spelling.mk (ds.take (lead + 1) ++ List.replicate (lead + 1 - (ds.take (lead + 1)).length) '0')
      (some (if ds.drop (lead + 1) = [] then ['0'] else ds.drop (lead + 1))) none).Spells
        ⟨Decimal.natOfDigits ds, exponent⟩ := by
  by_cases short : ds.drop (lead + 1) = []
  · -- All digits are in front of the point, with zeros up to it and one more behind it.
    have few : ds.length ≤ lead + 1 := List.drop_eq_nil_iff.mp short
    refine ⟨lead + 1 - ds.length + 1, ?_, ?_⟩
    · have digits : ds ++ List.replicate (lead + 1 - ds.length) '0' ++ ['0'] =
          ds ++ List.replicate (lead + 1 - ds.length + 1) '0' := by
        rw [List.replicate_succ', List.append_assoc]
      unfold Spelling.digits
      rw [List.take_of_length_le few, if_pos short, Option.getD_some, digits, natOfDigits_zeros]
    · unfold Spelling.place
      rw [if_pos short]
      simp
      omega
  · have many : lead + 1 < ds.length := by
      rw [List.drop_eq_nil_iff] at short
      omega
    refine ⟨0, ?_, ?_⟩
    · unfold Spelling.digits
      rw [if_neg short, List.length_take, Nat.min_eq_left (Nat.le_of_lt many), Nat.sub_self,
        List.replicate_zero, List.append_nil, Option.getD_some, List.take_append_drop, Nat.pow_zero,
        Nat.mul_one]
    · unfold Spelling.place
      rw [if_neg short]
      simp
      omega

theorem spells_fraction {zeros : Nat} {exponent : Int} (place : exponent = -(zeros + ds.length)) :
    (Spelling.mk ['0'] (some (List.replicate zeros '0' ++ ds)) none).Spells
      ⟨Decimal.natOfDigits ds, exponent⟩ := by
  refine ⟨0, ?_, ?_⟩
  · have front : Spelling.digits ⟨['0'], some (List.replicate zeros '0' ++ ds), none⟩ =
        List.replicate (zeros + 1) '0' ++ ds := rfl
    rw [front, natOfDigits_padded, Nat.pow_zero, Nat.mul_one]
  · unfold Spelling.place
    simp
    omega

theorem power_value (lead : Int) :
    Power.value (decide (lead < 0), Nat.toDigits 10 lead.natAbs) = lead := by
  unfold Power.value
  rw [Literal.natOfDigits_toDigits]
  split
  · next low =>
    have low := of_decide_eq_true low
    omega
  · next high =>
    have high : ¬ lead < 0 := fun low => high (decide_eq_true low)
    omega

theorem fraction_getD (ds : List Char) : (if ds = [] then none else some ds).getD [] = ds := by
  split
  · next none => exact none.symm
  · rfl

theorem spells_scientific {c : Char} {lead exponent : Int} (place : exponent = lead - ds.length) :
    (Spelling.mk [c] (if ds = [] then none else some ds)
      (some (decide (lead < 0), Nat.toDigits 10 lead.natAbs))).Spells
        ⟨Decimal.natOfDigits (c :: ds), exponent⟩ := by
  refine ⟨0, ?_, ?_⟩
  · unfold Spelling.digits
    rw [fraction_getD, List.singleton_append, Nat.pow_zero, Nat.mul_one]
  · unfold Spelling.place
    rw [fraction_getD, Option.map_some, Option.getD_some, power_value, place]
    exact Int.add_zero _

theorem float_scientific {c : Char} (digits : ∀ d ∈ c :: ds, d.isDigit = true) {lead : Int}
    (within : lead < 0 ∨ ds.length < 17 ∧ 0 ≤ lead - ds.length ∧
      Binary64.Readable (Decimal.natOfDigits (c :: ds)) (lead - ds.length).toNat) :
    (Spelling.mk [c] (if ds = [] then none else some ds)
      (some (decide (lead < 0), Nat.toDigits 10 lead.natAbs))).Float := by
  have front : ∀ d ∈ [c], d.isDigit = true := fun d member =>
    digits d (List.mem_singleton.mp member ▸ List.mem_cons_self)
  have rest : ∀ d ∈ ds, d.isDigit = true := fun d member => digits d (List.mem_cons_of_mem _ member)
  refine ⟨⟨⟨front, by simp⟩, .inl rfl, fun part same => ?_, fun power same => ?_⟩,
    .inr (Option.some_ne_none _), fun negative => ?_⟩
  · split at same
    · cases same
    · cases same
      exact ⟨rest, ‹_›⟩
  · cases same
    exact ⟨Literal.isDigit_toDigits _, Nat.toDigits_ne_nil⟩
  · have first := absorb_few front (by simp)
    have scaled : ∃ y, floatOfParts negative (absorb (Decimal.natOfDigits [c]) ds).1
        (lead + (([c].length - [c].length : Nat) : Int) -
          (absorb (Decimal.natOfDigits [c]) ds).2) = .ok y := by
      rcases within with low | ⟨few, high, readable⟩
      · exact floatOfParts_negative _ _ (by omega)
      · have fits : ds.foldl (fun n c => n * 10 + Decimal.digitValue c) (Decimal.natOfDigits [c]) ≤
            maxUInt64 := Nat.le_of_lt (Nat.lt_of_lt_of_le (natOfDigits_lt digits)
          (Nat.le_trans (Nat.pow_le_pow_right (by decide) (Nat.succ_le_succ (Nat.le_of_lt few)))
            (by decide)))
        rw [absorb_all fits, Nat.sub_self, Int.natCast_zero, Int.add_zero]
        exact floatOfParts_readable negative high readable
    obtain ⟨y, is⟩ := scaled
    refine ⟨y, value_float (.inr (Option.some_ne_none _)) ?_⟩
    change floatOfParts negative
      (absorb (absorb 0 [c]).1 ((if ds = [] then none else some ds).getD [])).1
      (Power.value (decide (lead < 0), Nat.toDigits 10 lead.natAbs) +
        (([c].length - (absorb 0 [c]).2 : Nat) : Int) -
        (absorb (absorb 0 [c]).1 ((if ds = [] then none else some ds).getD [])).2) = _
    rw [first, fraction_getD, power_value]
    exact is

end

theorem within_shortest {x : Binary64} (formed : x.Formed) (nonzero : x.steps ≠ 0) {c : Char}
    {ds : List Char} (digits : Nat.toDigits 10 (Binary64.shortest x.steps).digits = c :: ds)
    {lead : Int} (is : lead = (Binary64.shortest x.steps).exponent + ds.length)
    (outside : ¬ (0 ≤ lead ∧ lead < 16)) :
    lead < 0 ∨ ds.length < 17 ∧ 0 ≤ lead - ds.length ∧
      Binary64.Readable (Decimal.natOfDigits (c :: ds)) (lead - ds.length).toNat := by
  refine or_iff_not_imp_left.mpr fun high => ?_
  have length {k : Nat} (some : 0 < k) (less : (Binary64.shortest x.steps).digits < 10 ^ k) :
      ds.length + 1 ≤ k := by
    have short := (Nat.length_toDigits_le_iff (by decide) some).mpr less
    rwa [digits, List.length_cons] at short
  rcases Binary64.shortest_cases formed nonzero with plain | ⟨-, few, readable⟩
  · have most : Binary64.limit ≤ 10 ^ 632 := by decide +kernel
    have short := length (k := 632) (by decide)
      (by rw [plain]; exact Nat.lt_of_lt_of_le formed.bounded most)
    rw [plain] at is
    have is : lead = -1074 + ds.length := is
    omega
  · have short := length (by decide) few
    have place : lead - ds.length = (Binary64.shortest x.steps).exponent := by omega
    have whole : 0 ≤ (Binary64.shortest x.steps).exponent := by omega
    rw [place, ← digits, Literal.natOfDigits_toDigits]
    exact ⟨by omega, whole, readable whole⟩

/-- The text of a magnitude that is not zero spells a float. -/
theorem spelled_magnitude {x : Binary64} (formed : x.Formed) (nonzero : x.steps ≠ 0) :
    ∃ s : Spelling, (Binary64.magnitudeText x.steps).toList = s.chars ∧ s.Float ∧
      s.Spells (Binary64.shortest x.steps) := by
  have within {c : Char} {ds : List Char} := @within_shortest x formed nonzero c ds
  have something : (Binary64.shortest x.steps).digits ≠ 0 := by
    rcases Binary64.shortest_cases formed nonzero with plain | ⟨present, -, -⟩
    · rw [plain]
      exact nonzero
    · exact present
  unfold Binary64.magnitudeText
  rw [if_neg nonzero]
  generalize Binary64.shortest x.steps = scaled at within something ⊢
  obtain ⟨number, exponent⟩ := scaled
  have digits := Literal.isDigit_toDigits number
  have first := head_toDigits something
  simp only at within first ⊢
  obtain ⟨c, ds, is⟩ := List.exists_cons_of_ne_nil (Nat.toDigits_ne_nil (n := number) (b := 10))
  have within := within is rfl
  have read := Literal.natOfDigits_toDigits number
  rw [is] at digits first read ⊢
  rw [← read]
  have lead : exponent + ((c :: ds).length : Int) - 1 = exponent + ds.length := by
    rw [List.length_cons]
    omega
  rw [lead]
  split
  · next inside =>
    have few : (exponent + ds.length).toNat < 16 := by omega
    refine ⟨_, ?_, float_positional digits (List.cons_ne_nil c ds) first few,
      spells_positional (by rw [List.length_cons]; omega)⟩
    unfold Spelling.chars Spelling.fractionChars Spelling.powerChars
    split <;> simp
  · next outside =>
    split
    · refine ⟨_, ?_, float_of_fraction (Literal.isDigit_zeros 1) (List.cons_ne_nil '0' []) (.inl rfl)
        (by decide)
        (replicate_front digits (-(exponent + ds.length) - 1).toNat) (by simp),
        spells_fraction (by rw [List.length_cons]; omega)⟩
      unfold Spelling.chars Spelling.fractionChars Spelling.powerChars
      simp
    · refine ⟨_, ?_, float_scientific digits (within outside), spells_scientific (by omega)⟩
      unfold Spelling.chars Spelling.fractionChars Spelling.powerChars
      rw [List.take_one, List.drop_one]
      split <;> split <;> simp_all

theorem readNumber_toText {x : Binary64} (formed : x.Formed) :
    ∃ y, readNumber x.toText.toList = .ok (.float y, []) := by
  have spelled : ∃ s : Spelling, (Binary64.magnitudeText x.steps).toList = s.chars ∧ s.Float := by
    by_cases zero : x.steps = 0
    · refine ⟨⟨['0'], some ['0'], none⟩, ?_, float_of_fraction (Literal.isDigit_zeros 1)
        (List.cons_ne_nil '0' []) (.inl rfl) (by decide) (Literal.isDigit_zeros 1)
        (List.cons_ne_nil '0' [])⟩
      unfold Binary64.magnitudeText
      rw [if_pos zero]
      rfl
    · obtain ⟨s, text, float, -⟩ := spelled_magnitude formed zero
      exact ⟨s, text, float⟩
  obtain ⟨s, text, float⟩ := spelled
  obtain ⟨y, value⟩ := float.value x.negative
  have read : readNumeral x.toText.toList = .ok (s.numeral x.negative, []) := by
    unfold Binary64.toText
    rw [String.toList_append, text]
    cases sign : x.negative with
    | true => exact Spelling.readUnsigned_chars float.proper true
    | false =>
      obtain ⟨c, more, whole⟩ := List.exists_cons_of_ne_nil float.proper.whole.2
      have digit := float.proper.whole.1 c (whole ▸ List.mem_cons_self)
      have front : s.chars =
          c :: (more ++ (Spelling.fractionChars s.fraction ++ Spelling.powerChars s.power)) := by
        rw [Spelling.chars, whole, List.cons_append]
      have unsigned := Spelling.readUnsigned_chars float.proper false
      rw [front] at unsigned ⊢
      have other : c ≠ '-' := fun same => absurd digit (by rw [same]; decide)
      exact (readNumeral.eq_2 _ fun cs same => other (List.cons.inj same).1).trans unsigned
  refine ⟨y, ?_⟩
  change (readNumeral x.toText.toList >>= _) = _
  rw [read]
  change (s.numeral x.negative).value >>= _ = _
  rw [value]
  rfl

theorem reread_formed {x : Binary64} (formed : x.Formed) : ∃ y, reread? x = some y := by
  obtain ⟨y, read⟩ := readNumber_toText formed
  refine ⟨y, ?_⟩
  unfold reread?
  rw [read]

end Json

mutual

/-- Numbers that are not whole are of the format, and values are nested at most `depth` deep. -/
def Value.Formed (depth : Nat) : Value → Prop
  | .float x => x.Formed
  | .array items =>
    match depth with
    | 0 => False
    | depth + 1 => FormedItems depth items
  | .object members =>
    match depth with
    | 0 => False
    | depth + 1 => FormedMembers depth members
  | _ => True

def Value.FormedItems (depth : Nat) : List Value → Prop
  | [] => True
  | v :: rest => v.Formed depth ∧ FormedItems depth rest

def Value.FormedMembers (depth : Nat) : List (String × Value) → Prop
  | [] => True
  | m :: rest => m.2.Formed depth ∧ FormedMembers depth rest

end

/-- A record as a text has it that is read. -/
def Record.Formed (r : Record) : Prop := Value.FormedMembers (Json.maxDepth - 1) r

namespace Json

mutual

theorem rereadValue_formed {depth : Nat} {v : Value} (formed : v.Formed depth) :
    ∃ w, rereadValue depth v = .ok w := by
  cases v with
  | float x =>
    obtain ⟨y, read⟩ := reread_formed (by rwa [Value.Formed] at formed)
    exact ⟨.float y, by rw [rereadValue, read]⟩
  | array items =>
    cases depth with
    | zero => cases formed
    | succ depth =>
      obtain ⟨others, read⟩ := rereadItems_formed (by rwa [Value.Formed] at formed)
      exact ⟨.array others, by rw [rereadValue, read]; rfl⟩
  | object members =>
    cases depth with
    | zero => cases formed
    | succ depth =>
      obtain ⟨others, read⟩ := rereadMembers_formed (by rwa [Value.Formed] at formed)
      exact ⟨.object others, by rw [rereadValue, read]; rfl⟩
  | null => exact ⟨_, rfl⟩
  | bool b => exact ⟨_, rfl⟩
  | int i => exact ⟨_, rfl⟩
  | string s => exact ⟨_, rfl⟩

theorem rereadItems_formed {depth : Nat} {items : List Value}
    (formed : Value.FormedItems depth items) : ∃ others, rereadItems depth items = .ok others := by
  cases items with
  | nil => exact ⟨[], rfl⟩
  | cons v rest =>
    rw [Value.FormedItems] at formed
    obtain ⟨w, first⟩ := rereadValue_formed formed.1
    obtain ⟨others, read⟩ := rereadItems_formed formed.2
    exact ⟨w :: others, by rw [rereadItems, first, read]; rfl⟩

theorem rereadMembers_formed {depth : Nat} {members : List (String × Value)}
    (formed : Value.FormedMembers depth members) :
    ∃ others, rereadMembers depth members = .ok others := by
  cases members with
  | nil => exact ⟨[], rfl⟩
  | cons m rest =>
    rw [Value.FormedMembers] at formed
    obtain ⟨w, first⟩ := rereadValue_formed formed.1
    obtain ⟨others, read⟩ := rereadMembers_formed formed.2
    exact ⟨(m.1, w) :: others, by rw [rereadMembers, first, read]; rfl⟩

end

theorem rereadRecord_formed {r : Record} (formed : r.Formed) : ∃ q, rereadRecord r = .ok q :=
  rereadMembers_formed formed

end Json

end StoreGateway

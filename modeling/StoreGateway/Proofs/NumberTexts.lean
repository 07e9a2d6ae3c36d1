import StoreGateway.Proofs.Nearest
import StoreGateway.Proofs.Rereading

/-!
Numbers as the literals of filters. Main statements: the text of a number of the format is read as
that number, and a whole number beyond 64 bits with a sign is read as the number nearest to it.
-/

namespace StoreGateway

namespace Json.Spelling

variable {s : Spelling}

theorem Proper.head (proper : s.Proper) : ∃ c more, s.chars = c :: more ∧ c.isDigit = true := by
  obtain ⟨c, more, whole⟩ := List.exists_cons_of_ne_nil proper.whole.2
  refine ⟨c, more ++ (fractionChars s.fraction ++ powerChars s.power), ?_,
    proper.whole.1 c (whole ▸ List.mem_cons_self)⟩
  rw [chars, whole, List.cons_append]

def signed (s : Spelling) (negative : Bool) : List Char :=
  if negative then '-' :: s.chars else s.chars

theorem Proper.splitSign (proper : s.Proper) (negative : Bool) :
    Decimal.splitSign (s.signed negative) = (negative, s.chars) := by
  cases negative with
  | true => rfl
  | false =>
    obtain ⟨c, more, same, digit⟩ := proper.head
    change Decimal.splitSign s.chars = (false, s.chars)
    rw [same]
    unfold Decimal.splitSign
    split
    · next sign =>
      cases sign
      exact absurd digit (by decide)
    · next sign =>
      cases sign
      exact absurd digit (by decide)
    · rfl

theorem Proper.readExponent (proper : s.Proper) :
    Decimal.readExponent? (powerChars s.power) = some ((s.power.map Power.value).getD 0) := by
  have parts := proper.power
  generalize s.power = power at parts ⊢
  cases power with
  | none => rfl
  | some power =>
    obtain ⟨digits, present⟩ := parts power rfl
    obtain ⟨negative, ds⟩ := power
    have all : ds.all Char.isDigit = true := List.all_eq_true.mpr digits
    cases negative with
    | true =>
      have read : Decimal.readExponent? ('e' :: '-' :: ds) =
          if ('e' = 'e' ∨ 'e' = 'E') ∧ ds ≠ [] ∧ ds.all Char.isDigit then
            some (-(Decimal.natOfDigits ds : Int)) else none := rfl
      exact read.trans (if_pos ⟨.inl rfl, present, all⟩)
    | false =>
      have read : Decimal.readExponent? ('e' :: '+' :: ds) =
          if ('e' = 'e' ∨ 'e' = 'E') ∧ ds ≠ [] ∧ ds.all Char.isDigit then
            some (Decimal.natOfDigits ds : Int) else none := rfl
      exact read.trans (if_pos ⟨.inl rfl, present, all⟩)

/-- What is properly spelled is read as the number nearest to what its digits stand for. -/
theorem Proper.readBinary64 (proper : s.Proper) (negative : Bool) {text : String}
    (is : text.toList = s.signed negative) :
    Decimal.readBinary64? text =
      Decimal.nearest? negative (Decimal.natOfDigits s.digits) s.place := by
  obtain ⟨taken, dropped⟩ := takeWhile_digits proper.whole.1 (follows_fraction s.fraction s.power)
  have exponent := proper.readExponent
  unfold Decimal.readBinary64?
  rw [is, proper.splitSign negative]
  unfold chars digits place
  simp only [taken, dropped]
  cases fraction : s.fraction with
  | none =>
    -- What follows the digits is no point, whether there is an exponent or not.
    generalize s.power = power at exponent ⊢
    cases power with
    | none =>
      simp only [fractionChars, powerChars, List.nil_append, proper.whole.2, false_and, if_false]
      rfl
    | some power =>
      rw [powerChars] at exponent
      simp only [fractionChars, powerChars, List.nil_append, proper.whole.2, false_and, if_false]
      exact congrArg (Option.bind · fun n => Decimal.nearest? negative
        (Decimal.natOfDigits (s.whole ++ [])) (n - (([] : List Char).length : Int))) exponent
  | some ds =>
    obtain ⟨all, -⟩ := proper.fraction ds fraction
    obtain ⟨front, rest⟩ := takeWhile_digits all (follows_power s.power)
    simp only [fractionChars, List.cons_append, front, rest, proper.whole.2, false_and, if_false,
      exponent]
    rfl

/-- What has a point or an exponent is read as no whole number. -/
theorem Proper.readInt64 (proper : s.Proper) (marked : s.fraction ≠ none ∨ s.power ≠ none)
    (negative : Bool) {text : String} (is : text.toList = s.signed negative) :
    Decimal.readInt64? text = none := by
  have mark : ∃ c ∈ fractionChars s.fraction ++ powerChars s.power, c.isDigit = false := by
    generalize s.fraction = fraction, s.power = power at marked
    cases fraction with
    | some ds => exact ⟨'.', List.mem_append_left _ List.mem_cons_self, rfl⟩
    | none =>
      cases power with
      | some power => exact ⟨'e', List.mem_append_right _ List.mem_cons_self, rfl⟩
      | none => exact (marked.elim (· rfl) (· rfl)).elim
  obtain ⟨c, inside, other⟩ := mark
  unfold Decimal.readInt64?
  rw [is, proper.splitSign negative]
  refine if_neg fun all => ?_
  have digit := List.all_eq_true.mp all.2 c (List.mem_append_right _ inside)
  exact absurd digit (by rw [other]; decide)

end Json.Spelling

namespace Binary64

theorem spelled_toText {x : Binary64} (formed : x.Formed) (nonzero : x.steps ≠ 0) :
    ∃ s : Json.Spelling, x.toText.toList = s.signed x.negative ∧ s.Float ∧
      s.Spells (shortest x.steps) := by
  obtain ⟨s, text, float, spells⟩ := Json.spelled_magnitude formed nonzero
  refine ⟨s, ?_, float, spells⟩
  unfold toText Json.Spelling.signed
  rw [String.toList_append, text]
  cases x.negative <;> rfl

theorem readBinary64_toText {x : Binary64} (formed : x.Formed) :
    Decimal.readBinary64? x.toText = some x := by
  by_cases zero : x.steps = 0
  · obtain ⟨negative, steps⟩ := x
    cases zero
    cases negative <;> decide
  · obtain ⟨s, text, float, zeros, digits, place⟩ := spelled_toText formed zero
    have read := reads_shortest formed zero
    rw [← place, ← reads_shift, ← digits] at read
    rw [float.proper.readBinary64 x.negative text]
    exact nearest_of_reads formed zero read

theorem readInt64_toText {x : Binary64} (formed : x.Formed) :
    Decimal.readInt64? x.toText = none := by
  by_cases zero : x.steps = 0
  · obtain ⟨negative, steps⟩ := x
    cases zero
    cases negative <;> decide
  · obtain ⟨s, text, float, -⟩ := spelled_toText formed zero
    exact float.proper.readInt64 float.marked x.negative text

end Binary64

namespace Literal

theorem unquote_numeral {text : String} (numeral : IsNumeral text) : unquote? text = none := by
  refine unquote_bare fun c first => ?_
  have is := numeral c (List.mem_of_mem_head? first)
  cases quoted : isQuote c with
  | false => rfl
  | true =>
    simp only [isQuote, Bool.or_eq_true, beq_iff_eq] at quoted
    rcases quoted with rfl | rfl <;> exact absurd is (by decide)

theorem infer_toText {x : Binary64} (formed : x.Formed) : infer x.toText = .float x := by
  have looks := Binary64.looksNumeric_toText x
  rw [infer, unquote_numeral (looksNumeric_iff.mp looks).2, number?,
    Binary64.readInt64_toText formed]
  simp only [if_pos looks, Binary64.readBinary64_toText formed]
  rfl

theorem readBinary64_digits {n : Nat} (nonzero : n ≠ 0) (most : n ≤ maxUInt64) {text : String}
    (is : text.toList = Nat.toDigits 10 n) :
    Decimal.readBinary64? text = some (Binary64.ofRatio false n 1) := by
  have proper : (Json.Spelling.mk (Nat.toDigits 10 n) none none).Proper :=
    ⟨⟨isDigit_toDigits n, Nat.toDigits_ne_nil⟩, .inr (Json.head_toDigits nonzero), nofun, nofun⟩
  have chars : text.toList = (Json.Spelling.mk (Nat.toDigits 10 n) none none).signed false := by
    rw [is]
    exact (List.append_nil _).symm
  have short : (Nat.toDigits 10 n).length ≤ 20 :=
    (Nat.length_toDigits_le_iff (by decide) (by decide)).mpr (Nat.lt_of_le_of_lt most (by decide))
  have bounded := (Binary64.formed_whole false most).bounded
  rw [proper.readBinary64 false chars]
  unfold Json.Spelling.digits Json.Spelling.place
  change Decimal.nearest? false (Decimal.natOfDigits (Nat.toDigits 10 n ++ [])) 0 = _
  rw [List.append_nil, natOfDigits_toDigits]
  unfold Decimal.nearest?
  rw [if_neg (by omega), if_neg (by omega), if_pos (by decide)]
  change (Binary64.ofRatio false (n * 1) 1).finite? = _
  rw [Nat.mul_one]
  unfold Binary64.finite?
  split
  · rfl
  · next beyond => exact absurd bounded beyond

/-- A whole number that 64 bits hold only without a sign is read as the number nearest to it. -/
theorem infer_unsigned {i : Int} (low : maxInt64 < i) (high : i ≤ maxUInt64) :
    infer (toString i) = .float (Binary64.ofInt i) := by
  have top : 0 ≤ maxInt64 := by decide
  have positive : ¬ i < 0 := by omega
  have text : (toString i).toList = Nat.toDigits 10 i.natAbs := by
    rw [toList_toString_int, if_neg positive]
  have digits := toDigits_all_digit i.natAbs
  have looks : looksNumeric (toString i).toList = true := by
    have same : toString i = String.ofList (Nat.toDigits 10 i.natAbs) ++ "" :=
      String.toList_inj.mp (by rw [text, String.toList_append, String.toList_ofList]; simp)
    rw [same]
    exact Binary64.looksNumeric_digits (isDigit_toDigits _) Nat.toDigits_ne_nil (by decide)
  have whole : Decimal.readInt64? (toString i) = none := by
    unfold Decimal.readInt64?
    rw [text, splitSign_digits digits]
    simp only [digits, natOfDigits_toDigits]
    split
    · refine if_neg fun within => ?_
      have value : (i.natAbs : Int) ≤ maxInt64 := within.2
      omega
    · rfl
  have read : Decimal.readBinary64? (toString i) = some (Binary64.ofInt i) := by
    have read := readBinary64_digits (n := i.natAbs) (by omega) (by omega) text
    rw [read]
    unfold Binary64.ofInt
    rw [decide_eq_false positive]
  rw [infer, unquote_numeral (looksNumeric_iff.mp looks).2, number?, whole]
  simp only [if_pos looks, read]
  rfl

end Literal

end StoreGateway

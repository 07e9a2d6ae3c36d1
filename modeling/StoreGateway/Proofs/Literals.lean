import StoreGateway.Dialect
import StoreGateway.Filter.Literal

/-! Literals read back as the values that they are written for. -/

namespace StoreGateway

namespace Literal

theorem double_cons_quote (quote : Char) (cs : List Char) :
    double quote (quote :: cs) = quote :: quote :: double quote cs := by
  simp [double]

theorem double_cons_other {quote c : Char} (other : c ≠ quote) (cs : List Char) :
    double quote (c :: cs) = c :: double quote cs := by
  simp [double, other]

theorem undouble_double (quote : Char) (cs : List Char) : undouble quote (double quote cs) = cs := by
  induction cs with
  | nil => rfl
  | cons c cs ih =>
    by_cases same : c = quote
    · rw [same, double_cons_quote, undouble, if_pos ⟨rfl, rfl⟩, ih]
    · rw [double_cons_other same]
      cases rest : double quote cs with
      | nil => rw [rest] at ih; rw [undouble, ← ih]; rfl
      | cons d ds => rw [undouble, if_neg (fun both => same both.1), ← rest, ih]

theorem toList_quote (text : String) :
    (quote text).toList = '\'' :: (double '\'' text.toList ++ ['\'']) := by
  simp [quote]

theorem unquote_quote (text : String) : unquote? (quote text) = some text := by
  unfold unquote?
  rw [toList_quote]
  cases inside : double '\'' text.toList with
  | nil =>
    have empty := undouble_double '\'' text.toList
    rw [inside] at empty
    have : text = "" := String.toList_eq_nil_iff.mp empty.symm
    rw [this]
    rfl
  | cons c cs =>
    have last : (c :: (cs ++ ['\''])).getLast? = some '\'' := by
      rw [← List.cons_append, List.getLast?_append]; rfl
    have front : (c :: (cs ++ ['\''])).dropLast = c :: cs := by
      rw [← List.cons_append, List.dropLast_concat]
    simp only [List.cons_append]
    rw [if_pos ⟨rfl, last⟩, front, ← inside, undouble_double, String.ofList_toList]

theorem infer_quote (text : String) : infer (quote text) = .string text := by
  rw [infer, unquote_quote]

theorem natOfDigits_toDigits (n : Nat) : Decimal.natOfDigits (Nat.toDigits 10 n) = n := by
  have same : Decimal.natOfDigits (Nat.toDigits 10 n) = Nat.ofDigitChars 10 (Nat.toDigits 10 n) 0 := by
    rw [Nat.ofDigitChars_eq_foldl, Decimal.natOfDigits]
    simp only [Decimal.digitValue, Nat.mul_comm]
  rw [same, Nat.ofDigitChars_ten_toDigits]

theorem toDigits_all_digit (n : Nat) : (Nat.toDigits 10 n).all Char.isDigit = true := by
  rw [List.all_eq_true]
  intro c member
  exact Nat.isDigit_of_mem_toDigits (by decide) (by decide) member

theorem splitSign_digits {cs : List Char} (digits : cs.all Char.isDigit = true) :
    Decimal.splitSign cs = (false, cs) := by
  unfold Decimal.splitSign
  split
  · exact absurd (List.all_eq_true.mp digits '-' List.mem_cons_self) (by decide)
  · exact absurd (List.all_eq_true.mp digits '+' List.mem_cons_self) (by decide)
  · rfl

theorem toList_toString_int (i : Int) :
    (toString i).toList = if i < 0 then '-' :: Nat.toDigits 10 i.natAbs
      else Nat.toDigits 10 i.natAbs := by
  cases i with
  | ofNat n =>
    rw [if_neg (by simp)]
    exact Nat.toList_repr
  | negSucc n =>
    rw [if_pos (Int.negSucc_lt_zero n)]
    change ("-" ++ Nat.repr (n + 1)).toList = _
    rw [String.toList_append, Nat.toList_repr]
    rfl

theorem readInt64_toString {i : Int} (low : minInt64 ≤ i) (high : i ≤ maxInt64) :
    Decimal.readInt64? (toString i) = some i := by
  have digits := toDigits_all_digit i.natAbs
  have present : Nat.toDigits 10 i.natAbs ≠ [] := Nat.toDigits_ne_nil
  unfold Decimal.readInt64?
  rw [toList_toString_int]
  by_cases negative : i < 0
  · have same : -(i.natAbs : Int) = i := by omega
    simp only [if_pos negative, Decimal.splitSign]
    rw [if_pos ⟨present, digits⟩, natOfDigits_toDigits]
    simp only [if_true, same]
    rw [if_pos ⟨low, high⟩]
  · have same : (i.natAbs : Int) = i := by omega
    rw [if_neg negative, splitSign_digits digits]
    simp only
    rw [if_pos ⟨present, digits⟩, natOfDigits_toDigits]
    simp only [Bool.false_eq_true, if_false, same]
    rw [if_pos ⟨low, high⟩]

theorem unquote_bare {raw : String} (bare : ∀ c ∈ raw.toList.head?, isQuote c = false) :
    unquote? raw = none := by
  unfold unquote?
  split
  · next first second rest same =>
    have := bare first (by rw [same]; rfl)
    simp [this]
  · rfl

theorem infer_toString {i : Int} (low : minInt64 ≤ i) (high : i ≤ maxInt64) :
    infer (toString i) = .int i := by
  have bare : ∀ c ∈ (toString i).toList.head?, isQuote c = false := by
    intro c member
    have inside := List.mem_of_mem_head? member
    rw [toList_toString_int] at inside
    have digit : c = '-' ∨ c.isDigit = true := by
      split at inside
      · rcases List.mem_cons.mp inside with rfl | inside
        · exact .inl rfl
        · exact .inr (List.all_eq_true.mp (toDigits_all_digit _) c inside)
      · exact .inr (List.all_eq_true.mp (toDigits_all_digit _) c inside)
    rcases digit with rfl | digit
    · rfl
    · cases quoted : isQuote c with
      | false => rfl
      | true =>
        simp only [isQuote, Bool.or_eq_true, beq_iff_eq] at quoted
        rcases quoted with rfl | rfl <;> exact absurd digit (by decide)
  rw [infer, unquote_bare bare, number?, readInt64_toString low high]
  rfl

/-- Values whose literal is read back: an integer has to be in the range of 64 bits with a sign, and
a float's text has to be read as that float. -/
def Readable : Value → Prop
  | .null => True
  | .bool _ => True
  | .int i => minInt64 ≤ i ∧ i ≤ maxInt64
  | .float x => infer (text (.float x)) = .float x
  | .string _ => True
  | .array _ => False
  | .object _ => False

theorem infer_text {v : Value} (readable : Readable v) : infer (text v) = v := by
  cases v with
  | null => rfl
  | bool b => cases b <;> rfl
  | int i => exact infer_toString readable.1 readable.2
  | float x => exact readable
  | string s => exact infer_quote s
  | array items => exact readable.elim
  | object members => exact readable.elim

def isNumeral (c : Char) : Bool := c.isDigit || ".-+eE".toList.contains c

/-- Text of digits, points, signs and exponents alone. -/
def IsNumeral (text : String) : Prop := ∀ c ∈ text.toList, isNumeral c = true

instance (text : String) : Decidable (IsNumeral text) :=
  List.decidableBAll (fun c => isNumeral c = true) text.toList

theorem looksNumeric_iff {text : String} : looksNumeric text.toList = true ↔
    (∃ c ∈ text.toList, c.isDigit = true) ∧ IsNumeral text := by
  rw [looksNumeric, Bool.and_eq_true, List.any_eq_true, List.all_eq_true]
  rfl

theorem IsNumeral.append {a b : String} (first : IsNumeral a) (second : IsNumeral b) :
    IsNumeral (a ++ b) := by
  intro c member
  rw [String.toList_append] at member
  rcases List.mem_append.mp member with member | member
  · exact first c member
  · exact second c member

theorem isNumeral_digits {digits : List Char} (all : ∀ c ∈ digits, c.isDigit = true) :
    IsNumeral (String.ofList digits) := by
  intro c member
  rw [String.toList_ofList] at member
  rw [isNumeral, all c member, Bool.true_or]

theorem exists_digit {digits : List Char} (all : ∀ c ∈ digits, c.isDigit = true)
    (present : digits ≠ []) (rest : String) :
    ∃ c ∈ (String.ofList digits ++ rest).toList, c.isDigit = true := by
  obtain ⟨c, more, rfl⟩ := List.exists_cons_of_ne_nil present
  exact ⟨c, by simp, all c List.mem_cons_self⟩

theorem isDigit_toDigits (n : Nat) : ∀ c ∈ Nat.toDigits 10 n, c.isDigit = true :=
  List.all_eq_true.mp (toDigits_all_digit n)

theorem isNumeral_nat (n : Nat) : IsNumeral (toString n) := by
  intro c member
  have same : (toString n).toList = Nat.toDigits 10 n := Nat.toList_repr
  rw [same] at member
  rw [isNumeral, isDigit_toDigits n c member, Bool.true_or]

theorem isDigit_zeros (n : Nat) : ∀ c ∈ List.replicate n '0', c.isDigit = true := by
  intro c member
  rw [List.eq_of_mem_replicate member]
  rfl

end Literal

namespace Binary64

open Literal

theorem looksNumeric_digits {whole : List Char} (digits : ∀ c ∈ whole, c.isDigit = true)
    (present : whole ≠ []) {more : String} (numeral : IsNumeral more) :
    looksNumeric (String.ofList whole ++ more).toList = true :=
  looksNumeric_iff.mpr ⟨exists_digit digits present more, (isNumeral_digits digits).append numeral⟩

section

variable {ds : List Char}

theorem isNumeral_drop (digits : ∀ c ∈ ds, c.isDigit = true) (n : Nat) :
    IsNumeral (String.ofList (ds.drop n)) :=
  isNumeral_digits fun c member => digits c (List.mem_of_mem_drop member)

theorem isDigit_front (digits : ∀ c ∈ ds, c.isDigit = true) (n : Nat) {cs : List Char}
    (others : ∀ c ∈ cs, c.isDigit = true) : ∀ c ∈ ds.take n ++ cs, c.isDigit = true :=
  fun c member => (List.mem_append.mp member).elim
    (fun inside => digits c (List.mem_of_mem_take inside)) (others c)

theorem looksNumeric_positional (digits : ∀ c ∈ ds, c.isDigit = true) (present : ds ≠ [])
    (lead zeros : Nat) :
    looksNumeric (String.ofList (ds.take (lead + 1) ++ List.replicate zeros '0') ++ "." ++
      (if ds.drop (lead + 1) = [] then "0" else String.ofList (ds.drop (lead + 1)))).toList =
        true := by
  rw [String.append_assoc]
  refine looksNumeric_digits (isDigit_front digits _ (isDigit_zeros zeros)) (by simp [present]) ?_
  refine IsNumeral.append (by decide) ?_
  split
  · decide
  · exact isNumeral_drop digits _

theorem looksNumeric_fraction (digits : ∀ c ∈ ds, c.isDigit = true) (zeros : Nat) :
    looksNumeric ("0." ++ String.ofList (List.replicate zeros '0' ++ ds)).toList = true := by
  refine looksNumeric_iff.mpr ⟨⟨'0', by simp, rfl⟩, IsNumeral.append (by decide) ?_⟩
  refine isNumeral_digits fun c member => ?_
  exact (List.mem_append.mp member).elim (isDigit_zeros _ c) (digits c)

theorem looksNumeric_scientific (digits : ∀ c ∈ ds, c.isDigit = true) (present : ds ≠ [])
    (negative : Prop) [Decidable negative] (exponent : Nat) :
    looksNumeric (String.ofList (ds.take 1) ++
      (if ds.drop 1 = [] then "" else "." ++ String.ofList (ds.drop 1)) ++
      (if negative then "e-" else "e+") ++ toString exponent).toList = true := by
  rw [String.append_assoc, String.append_assoc]
  refine looksNumeric_digits (fun c member => digits c (List.mem_of_mem_take member))
    (by simp [present]) ?_
  refine IsNumeral.append ?_ (IsNumeral.append ?_ (isNumeral_nat exponent))
  · split
    · decide
    · exact IsNumeral.append (by decide) (isNumeral_drop digits 1)
  · split <;> decide

end

theorem looksNumeric_magnitudeText (steps : Nat) :
    looksNumeric (magnitudeText steps).toList = true := by
  unfold magnitudeText
  split
  · decide
  · generalize shortest steps = scaled
    obtain ⟨number, exponent⟩ := scaled
    have digits := isDigit_toDigits number
    have present : Nat.toDigits 10 number ≠ [] := Nat.toDigits_ne_nil
    simp only
    split
    · exact looksNumeric_positional digits present _ _
    · split
      · exact looksNumeric_fraction digits _
      · exact looksNumeric_scientific digits present _ _

theorem looksNumeric_toText (x : Binary64) : looksNumeric x.toText.toList = true := by
  obtain ⟨digit, numeral⟩ := looksNumeric_iff.mp (looksNumeric_magnitudeText x.steps)
  unfold toText
  split
  · obtain ⟨c, member, is⟩ := digit
    refine looksNumeric_iff.mpr ⟨⟨c, ?_, is⟩, IsNumeral.append (by decide) numeral⟩
    rw [String.toList_append]
    exact List.mem_append_right _ member
  · exact looksNumeric_iff.mpr ⟨by simpa using digit, IsNumeral.append (by decide) numeral⟩

end Binary64

end StoreGateway

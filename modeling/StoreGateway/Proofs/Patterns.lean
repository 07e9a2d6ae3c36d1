import StoreGateway.Proofs.Coerced

/-! Patterns as the equalities and ranges that stand for them. -/

namespace StoreGateway

theorem Text.after_isSome (front cs : List Char) :
    (Text.after? front cs).isSome = true ↔ front <+: cs := by
  induction front generalizing cs with
  | nil => simp [after?]
  | cons f front ih =>
    cases cs with
    | nil => simp [after?]
    | cons c cs =>
      by_cases same : f = c
      · rw [after?, if_pos same, ih, List.cons_prefix_cons]
        simp [same]
      · rw [after?, if_neg same, List.cons_prefix_cons]
        simp [same]

namespace Literal

def hasNoNext (c : Char) : Bool := (nextChar? c).isNone

def lastChar : Char := Char.ofNat 0x10FFFF

theorem le_lastChar (c : Char) : c ≤ lastChar := by
  change c.toNat ≤ lastChar.toNat
  have last : lastChar.toNat = 0x10FFFF := rfl
  rcases c.valid with low | ⟨-, high⟩
  · have : c.toNat < 0xD800 := low
    omega
  · have : c.toNat < 0x110000 := high
    omega

theorem toNat_nextChar {c next : Char} (steps : nextChar? c = some next) :
    next.toNat = c.toNat + 1 := by
  unfold nextChar? at steps
  split at steps
  · next valid =>
    cases steps
    rw [Char.ofNat, dif_pos valid]
    rfl
  · cases steps

theorem not_between {c a next : Char} (steps : nextChar? c = some next) (above : c < a)
    (below : a < next) : False := by
  have step := toNat_nextChar steps
  have low : c.toNat < a.toNat := above
  have high : a.toNat < next.toNat := below
  omega

theorem lt_nextChar {c next : Char} (steps : nextChar? c = some next) : c < next := by
  change c.toNat < next.toNat
  rw [toNat_nextChar steps]
  exact Nat.lt_succ_self _

theorem stepFirst_cases (cs : List Char) :
    (stepFirst? cs = none ∧ ∀ c ∈ cs, hasNoNext c = true) ∨
      ∃ stuck c next more, cs = stuck ++ c :: more ∧ (∀ d ∈ stuck, hasNoNext d = true) ∧
        nextChar? c = some next ∧ stepFirst? cs = some (next :: more) := by
  induction cs with
  | nil => exact .inl ⟨rfl, nofun⟩
  | cons c cs ih =>
    cases steps : nextChar? c with
    | some next => exact .inr ⟨[], c, next, cs, rfl, nofun, steps, by rw [stepFirst?, steps]⟩
    | none =>
      have stuck : hasNoNext c = true := by rw [hasNoNext, steps]; rfl
      rcases ih with ⟨none, all⟩ | ⟨before, d, next, more, rfl, all, step, found⟩
      · refine .inl ⟨by rw [stepFirst?, steps]; exact none, fun d member => ?_⟩
        rcases List.mem_cons.mp member with rfl | member
        · exact stuck
        · exact all d member
      · refine .inr ⟨c :: before, d, next, more, rfl, fun e member => ?_, step, ?_⟩
        · rcases List.mem_cons.mp member with rfl | member
          · exact stuck
          · exact all e member
        · rw [stepFirst?, steps]
          exact found

def stuckEnd (cs : List Char) : List Char := cs.reverse.takeWhile hasNoNext

/-- The bound is a text whose last character that can be stepped is. -/
theorem upperBound_cases (start : String) :
    (upperBound? start = none ∧ ∀ c ∈ start.toList, c ∈ stuckEnd start.toList) ∨
      ∃ front c next stuck, start.toList = front ++ c :: stuck ∧
        (∀ d ∈ stuck, d ∈ stuckEnd start.toList) ∧ nextChar? c = some next ∧
        upperBound? start = some (String.ofList (front ++ [next])) := by
  rcases stepFirst_cases start.toList.reverse with ⟨none, all⟩ | ⟨stuck, c, next, more, splits, all, steps, found⟩
  · refine .inl ⟨by rw [upperBound?, none]; rfl, fun c member => ?_⟩
    have whole := @List.takeWhile_append_of_pos _ _ _ [] all
    rw [List.append_nil, List.takeWhile_nil, List.append_nil] at whole
    rw [stuckEnd, whole]
    exact List.mem_reverse.mpr member
  · refine .inr ⟨more.reverse, c, next, stuck.reverse, ?_, ?_, steps, ?_⟩
    · have back := congrArg List.reverse splits
      rw [List.reverse_reverse] at back
      rw [back]
      simp
    · intro d member
      rw [stuckEnd, splits, List.takeWhile_append_of_pos all]
      exact List.mem_append_left _ (List.mem_reverse.mp member)
    · rw [upperBound?, found]
      simp

theorem le_iff_toList {start text : String} : start ≤ text ↔ ¬ text.toList < start.toList := by
  rw [← String.not_lt, String.lt_iff]

theorem not_cons_lt_cons {a b : Char} {as bs : List Char} :
    ¬ a :: as < b :: bs ↔ b < a ∨ b = a ∧ ¬ as < bs := by
  rw [List.not_lt, List.cons_le_cons_iff, List.not_lt]

theorem prefix_of_last {stuck text : List Char} (last : ∀ d ∈ stuck, d = lastChar)
    (above : ¬ text < stuck) : stuck <+: text := by
  induction stuck generalizing text with
  | nil => exact List.nil_prefix
  | cons d stuck ih =>
    cases last d List.mem_cons_self
    have rest := fun e member => last e (List.mem_cons_of_mem lastChar member)
    cases text with
    | nil => exact absurd (List.nil_lt_cons lastChar stuck) above
    | cons a text =>
      rcases not_cons_lt_cons.mp above with less | ⟨rfl, more⟩
      · exact absurd less (Char.not_lt.mpr (le_lastChar a))
      · exact List.cons_prefix_cons.mpr ⟨rfl, ih rest more⟩

theorem prefix_of_between {front stuck text : List Char} {c next : Char}
    (last : ∀ d ∈ stuck, d = lastChar) (steps : nextChar? c = some next)
    (above : ¬ text < front ++ c :: stuck) (below : text < front ++ [next]) :
    front ++ c :: stuck <+: text := by
  induction front generalizing text with
  | nil =>
    cases text with
    | nil => exact absurd (List.nil_lt_cons c stuck) above
    | cons a text =>
      have low : a < next := by
        rcases List.cons_lt_cons_iff.mp below with less | ⟨-, none⟩
        · exact less
        · exact absurd none (List.not_lt_nil text)
      rcases not_cons_lt_cons.mp above with less | ⟨rfl, more⟩
      · exact (not_between steps less low).elim
      · exact List.cons_prefix_cons.mpr ⟨rfl, prefix_of_last last more⟩
  | cons f front ih =>
    cases text with
    | nil => exact absurd (List.nil_lt_cons f _) above
    | cons a text =>
      rcases not_cons_lt_cons.mp above with less | ⟨rfl, more⟩
      · rcases List.cons_lt_cons_iff.mp below with less' | ⟨same, -⟩
        · exact absurd less' (Char.lt_asymm less)
        · exact absurd (same ▸ less) (Char.lt_irrefl f)
      · rcases List.cons_lt_cons_iff.mp below with less' | ⟨-, less⟩
        · exact absurd less' (Char.lt_irrefl f)
        · exact List.cons_prefix_cons.mpr ⟨rfl, ih more less⟩

theorem not_lt_of_starts {start text : List Char} (starts : start <+: text) : ¬ text < start := by
  induction start generalizing text with
  | nil => exact List.not_lt_nil text
  | cons c start ih =>
    obtain ⟨rest, rfl⟩ := starts
    exact not_cons_lt_cons.mpr (.inr ⟨rfl, ih (List.prefix_append start rest)⟩)

theorem lt_of_starts {front stuck text : List Char} {c next : Char}
    (steps : nextChar? c = some next) (starts : front ++ c :: stuck <+: text) :
    text < front ++ [next] := by
  induction front generalizing text with
  | nil =>
    obtain ⟨rest, rfl⟩ := starts
    exact List.cons_lt_cons_iff.mpr (.inl (lt_nextChar steps))
  | cons f front ih =>
    obtain ⟨rest, rfl⟩ := starts
    exact List.cons_lt_cons_iff.mpr (.inr ⟨rfl, ih (List.prefix_append _ rest)⟩)

/-- The bound above a text leaves nothing out that starts with it, and lets in nothing else: what is
dropped at its end are last characters, not the one before the surrogates. -/
def IsTight (start : String) : Prop := ∀ c ∈ stuckEnd start.toList, c = lastChar

instance (start : String) : Decidable (IsTight start) :=
  List.decidableBAll (fun c => c = lastChar) (stuckEnd start.toList)

/-- The texts from a text up to below the bound above it are those that start with it. -/
theorem between_iff {start : String} (tight : IsTight start) (text : String) :
    (start ≤ text ∧ ∀ bound, upperBound? start = some bound → text < bound) ↔
      start.toList <+: text.toList := by
  rw [le_iff_toList]
  rcases upperBound_cases start with ⟨none, all⟩ | ⟨front, c, next, stuck, splits, all, steps, found⟩
  · refine ⟨fun both => ?_, fun starts => ⟨not_lt_of_starts starts, ?_⟩⟩
    · exact prefix_of_last (fun d member => tight d (all d member)) both.1
    · rw [none]
      exact nofun
  · have last := fun d member => tight d (all d member)
    constructor
    · rintro ⟨above, below⟩
      have less := String.lt_iff.mp (below _ found)
      rw [String.toList_ofList] at less
      rw [splits] at above ⊢
      exact prefix_of_between last steps above less
    · intro starts
      refine ⟨not_lt_of_starts starts, fun bound same => ?_⟩
      rw [found] at same
      cases same
      rw [String.lt_iff, String.toList_ofList]
      rw [splits] at starts
      exact lt_of_starts steps starts

end Literal

theorem compare_text (text other : String) : compare text other = .lt ↔ text < other :=
  compareOfLessAndEq_eq_lt

theorem eq_holds_text (actual : Option Value) (text : String) :
    Comparator.eq.holds actual (.string text) = true ↔ actual = some (.string text) := by
  cases actual with
  | none => simp [Comparator.holds]
  | some a =>
    cases a with
    | string s => simp [Comparator.holds, Value.equals, Value.compare?, Value.toBinary64?]
    | _ => simp [Comparator.holds, Value.equals, Value.compare?, Value.toBinary64?, Value.same]

theorem ge_holds_text (actual : Option Value) (lower : String) :
    Comparator.ge.holds actual (.string lower) = true ↔
      ∃ text, actual = some (.string text) ∧ lower ≤ text := by
  cases actual with
  | none => simp [Comparator.holds]
  | some a =>
    cases a with
    | string s =>
      have compared : Comparator.ge.holds (some (.string s)) (.string lower) = true ↔
          ¬ compare s lower = .lt := by
        simp [Comparator.holds, Value.compare?, Value.toBinary64?, Comparator.accepts]
      rw [compared, compare_text, String.not_lt]
      constructor
      · exact fun above => ⟨s, rfl, above⟩
      · rintro ⟨text, same, above⟩
        cases same
        exact above
    | _ => simp [Comparator.holds, Value.compare?, Value.toBinary64?]

theorem lt_holds_text (text bound : String) :
    Comparator.lt.holds (some (.string text)) (.string bound) = true ↔ text < bound := by
  simp [Comparator.holds, Value.compare?, Value.toBinary64?, Comparator.accepts, compare_text]

theorem between_holds_iff {start : String} (tight : Literal.IsTight start)
    (actual : Option Value) :
    (Comparator.ge.holds actual (.string start) && (Literal.upperBound? start).all fun bound =>
        Comparator.lt.holds actual (.string bound)) = true ↔
      ∃ text, actual = some (.string text) ∧ start.toList <+: text.toList := by
  rw [Bool.and_eq_true, ge_holds_text]
  constructor
  · rintro ⟨⟨text, rfl, above⟩, below⟩
    refine ⟨text, rfl, (Literal.between_iff tight text).mp ⟨above, fun bound same => ?_⟩⟩
    rw [same] at below
    exact (lt_holds_text text bound).mp below
  · rintro ⟨text, rfl, starts⟩
    obtain ⟨above, below⟩ := (Literal.between_iff tight text).mpr starts
    refine ⟨⟨text, rfl, above⟩, ?_⟩
    cases found : Literal.upperBound? start with
    | none => rfl
    | some bound => exact (lt_holds_text text bound).mpr (below bound found)

theorem like_holds_iff (actual : Option Value) (pattern : String) :
    Relation.like.holds actual (.string pattern) = true ↔
      ∃ text, actual = some (.string text) ∧ likeHolds text pattern = true := by
  cases actual with
  | none => simp [Relation.holds]
  | some a => cases a <;> simp [Relation.holds]

def patternStart (pattern : String) : String :=
  String.ofList (pattern.toList.takeWhile (· ≠ '%'))

/-- A pattern without a wildcard, or with one at its end. -/
theorem patternCondition_text {name pattern : String} {condition : Condition}
    (planned : patternCondition name (.string pattern) = .ok condition) :
    (condition = .exactly pattern ∧ '%' ∉ pattern.toList) ∨
      (condition = .between (patternStart pattern) (Literal.upperBound? (patternStart pattern)) ∧
        pattern.toList = (patternStart pattern).toList ++ ['%']) := by
  have splits := @List.takeWhile_append_dropWhile _ (fun c : Char => decide (c ≠ '%')) pattern.toList
  unfold patternCondition at planned
  simp only at planned
  split at planned
  · next none =>
    cases planned
    rw [none, List.append_nil] at splits
    refine .inl ⟨rfl, fun member => ?_⟩
    rw [← splits] at member
    simpa using List.all_eq_true.mp List.all_takeWhile _ member
  · next wildcard one =>
    cases planned
    have first := List.head?_dropWhile_not (fun c : Char => decide (c ≠ '%')) pattern.toList
    rw [one] at first
    have percent : wildcard = '%' := by simpa using first
    refine .inr ⟨rfl, ?_⟩
    rw [one, percent] at splits
    rw [patternStart, String.toList_ofList, splits]
  · cases planned

theorem likeHolds_exactly {pattern : String} (plain : '%' ∉ pattern.toList) (text : String) :
    likeHolds text pattern = true ↔ text = pattern := by
  unfold likeHolds
  split
  · next last => exact absurd (List.mem_of_getLast? last) plain
  · exact beq_iff_eq

theorem likeHolds_start {pattern : String}
    (ends : pattern.toList = (patternStart pattern).toList ++ ['%']) (text : String) :
    likeHolds text pattern = true ↔ (patternStart pattern).toList <+: text.toList := by
  rw [← Text.after_isSome]
  unfold likeHolds
  rw [ends, List.getLast?_concat, List.dropLast_concat]
  rfl

theorem patternHolds_eq {name pattern : String} {condition : Condition}
    (planned : patternCondition name (.string pattern) = .ok condition)
    (tight : Literal.IsTight (patternStart pattern)) (actual : Option Value) :
    patternHolds actual (.string pattern) = Relation.like.holds actual (.string pattern) := by
  rw [Bool.eq_iff_iff, like_holds_iff, patternHolds, patternCondition_name planned ""]
  rcases patternCondition_text planned with ⟨rfl, plain⟩ | ⟨rfl, ends⟩
  · simp only [eq_holds_text, likeHolds_exactly plain]
    exact ⟨fun same => ⟨pattern, same, rfl⟩, by rintro ⟨text, same, rfl⟩; exact same⟩
  · simp only [between_holds_iff tight, likeHolds_start ends]

end StoreGateway

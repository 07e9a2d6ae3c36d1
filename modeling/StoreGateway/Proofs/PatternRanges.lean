import StoreGateway.Proofs.Patterns

/-!
Ranges that stand for patterns. Main statement: the range of a pattern with a wildcard at its end has
every text that the pattern holds for, and no other text unless the text before the wildcard ends with
the character before the surrogates.
-/

namespace StoreGateway

namespace Literal

def beforeSurrogates : Char := Char.ofNat 0xD7FF

def afterSurrogates : Char := Char.ofNat 0xE000

theorem stuck_cases {c : Char} (stuck : hasNoNext c = true) :
    c = beforeSurrogates ∨ c = lastChar := by
  have invalid : ¬ (c.toNat + 1).isValidChar := by
    intro valid
    rw [hasNoNext, nextChar?, if_pos valid] at stuck
    cases stuck
  have eq_of_toNat {d : Char} (same : c.toNat = d.toNat) : c = d := Char.ext (UInt32.toNat_inj.mp same)
  rcases c.valid with low | ⟨above, high⟩
  · have below : c.toNat < 0xD800 := low
    have step : ¬ c.toNat + 1 < 0xD800 := fun less => invalid (.inl less)
    have is : c.toNat = 0xD7FF := by omega
    exact .inl (eq_of_toNat is)
  · have above : 0xDFFF < c.toNat := above
    have below : c.toNat < 0x110000 := high
    have step : ¬ c.toNat + 1 < 0x110000 := fun less => invalid (.inr ⟨by omega, less⟩)
    have is : c.toNat = 0x10FFFF := by omega
    exact .inr (eq_of_toNat is)

theorem between_of_starts {start text : String} (starts : start.toList <+: text.toList) :
    start ≤ text ∧ ∀ bound, upperBound? start = some bound → text < bound := by
  refine ⟨le_iff_toList.mpr (not_lt_of_starts starts), fun bound same => ?_⟩
  rcases upperBound_cases start with ⟨none, -⟩ | ⟨front, c, next, stuck, splits, -, steps, found⟩
  · rw [none] at same
    cases same
  · rw [found] at same
    cases same
    rw [splits] at starts
    rw [String.lt_iff, String.toList_ofList]
    exact lt_of_starts steps starts

theorem splits_of_not_tight {start : String} (wide : ¬ IsTight start) :
    ∃ front stuck, start.toList = front ++ beforeSurrogates :: stuck ∧
      ∀ c ∈ stuck, hasNoNext c = true := by
  obtain ⟨c, inside, other⟩ : ∃ c ∈ stuckEnd start.toList, c ≠ lastChar := by
    apply Decidable.byContradiction
    intro none
    refine wide fun c inside => Decidable.byContradiction fun other => none ⟨c, inside, other⟩
  have all (d : Char) (member : d ∈ stuckEnd start.toList) : hasNoNext d = true :=
    List.all_eq_true.mp List.all_takeWhile d member
  rcases stuck_cases (all c inside) with rfl | last
  · obtain ⟨before, after, ends⟩ := List.append_of_mem inside
    have whole := @List.takeWhile_append_dropWhile _ hasNoNext start.toList.reverse
    have back := congrArg List.reverse whole
    change (stuckEnd start.toList ++ _).reverse = _ at back
    rw [ends, List.reverse_reverse] at back
    refine ⟨(start.toList.reverse.dropWhile hasNoNext).reverse ++ after.reverse, before.reverse,
      back.symm.trans ?_, fun d member => all d ?_⟩
    · simp only [List.reverse_append, List.reverse_cons, List.append_assoc, List.singleton_append]
    · rw [ends]
      exact List.mem_append_left _ (List.mem_reverse.mp member)
  · exact absurd last other

theorem splits_before {front more stuck rest : List Char} {c next d : Char}
    (same : front ++ c :: rest = more ++ d :: stuck) (steps : nextChar? c = some next)
    (none : ∀ e ∈ d :: stuck, hasNoNext e = true) : ∃ between, more = front ++ c :: between := by
  have moves : hasNoNext c = false := by
    rw [hasNoNext, steps]
    rfl
  rcases List.append_eq_append_iff.mp same with ⟨between, rfl, ends⟩ | ⟨between, rfl, ends⟩
  · cases between with
    | nil =>
      cases ends
      exact absurd (none c List.mem_cons_self) (Bool.eq_false_iff.mp moves)
    | cons first between =>
      cases ends
      exact ⟨between, rfl⟩
  · have inside : c ∈ d :: stuck := by
      rw [ends]
      exact List.mem_append_right between List.mem_cons_self
    exact absurd (none c inside) (Bool.eq_false_iff.mp moves)

theorem not_append_lt {as bs : List Char} (above : ¬ as < bs) (front : List Char) :
    ¬ front ++ as < front ++ bs := by
  induction front with
  | nil => exact above
  | cons c front ih => exact not_cons_lt_cons.mpr (.inr ⟨rfl, ih⟩)

theorem wide_of_not_tight {start : String} (wide : ¬ IsTight start) :
    ∃ text : String, (start ≤ text ∧ ∀ bound, upperBound? start = some bound → text < bound) ∧
      ¬ start.toList <+: text.toList := by
  obtain ⟨more, stuck, splits, all⟩ := splits_of_not_tight wide
  have none : ∀ e ∈ beforeSurrogates :: stuck, hasNoNext e = true := by
    intro e member
    rcases List.mem_cons.mp member with rfl | member
    · decide
    · exact all e member
  refine ⟨String.ofList (more ++ [afterSurrogates]), ⟨?_, fun bound same => ?_⟩, ?_⟩
  · rw [le_iff_toList, String.toList_ofList, splits]
    exact not_append_lt (not_cons_lt_cons.mpr (.inl (by decide))) more
  · rcases upperBound_cases start with ⟨none, -⟩ | ⟨front, c, next, rest, splits', -, steps, found⟩
    · rw [none] at same
      cases same
    · rw [found] at same
      cases same
      obtain ⟨between, rfl⟩ := splits_before (splits'.symm.trans splits) steps none
      have starts : front ++ c :: between <+: front ++ c :: between ++ [afterSurrogates] :=
        List.prefix_append _ _
      rw [String.lt_iff, String.toList_ofList, String.toList_ofList]
      exact lt_of_starts steps starts
  · rw [String.toList_ofList, splits, List.prefix_append_right_inj]
    intro starts
    have same : beforeSurrogates = afterSurrogates := (List.cons_prefix_cons.mp starts).1
    exact absurd same (by decide)

theorem isTight_iff (start : String) : IsTight start ↔ ∀ text : String,
    (start ≤ text ∧ ∀ bound, upperBound? start = some bound → text < bound) →
      start.toList <+: text.toList := by
  constructor
  · intro tight text
    exact (between_iff tight text).mp
  · intro narrow
    apply Decidable.byContradiction
    intro wide
    obtain ⟨text, between, apart⟩ := wide_of_not_tight wide
    exact apart (narrow text between)

end Literal

/-- Whether a text meets a condition that stands for a pattern. -/
def Condition.Selects (text : String) : Condition → Prop
  | .exactly whole => text = whole
  | .between lower upper => lower ≤ text ∧ ∀ bound, upper = some bound → text < bound
  | _ => False

/-- Nothing that a pattern holds for is lost, and nothing else is let in as long as its range drops no
character before the surrogates. -/
theorem pattern_selected {name pattern : String} {condition : Condition}
    (planned : patternCondition name (.string pattern) = .ok condition) :
    (∀ text, likeHolds text pattern = true → condition.Selects text) ∧
      ((∀ text, condition.Selects text → likeHolds text pattern = true) ↔
        ('%' ∈ pattern.toList → Literal.IsTight (patternStart pattern))) := by
  rcases patternCondition_text planned with ⟨rfl, plain⟩ | ⟨rfl, ends⟩
  · have same (text : String) := likeHolds_exactly plain text
    exact ⟨fun text => (same text).mp,
      fun _ wildcard => absurd wildcard plain, fun _ text => (same text).mpr⟩
  · have wildcard : '%' ∈ pattern.toList := by
      rw [ends]
      exact List.mem_append_right _ (List.mem_singleton_self '%')
    have starts (text : String) := likeHolds_start ends text
    refine ⟨fun text holds => Literal.between_of_starts ((starts text).mp holds), ?_⟩
    simp only [starts, Condition.Selects, wildcard, true_implies]
    exact (Literal.isTight_iff _).symm

def capped : String := String.ofList ['a', Literal.lastChar, '%']

/-- A bound drops the last character of all, and its range has no other texts. -/
theorem pattern_selected_of_capped :
    ∃ condition, patternCondition "v" (.string capped) = .ok condition ∧
      Literal.upperBound? (patternStart capped) = some "b" ∧
      ∀ text, condition.Selects text ↔ likeHolds text capped = true := by
  have planned : patternCondition "v" (.string capped) = .ok (.between (patternStart capped)
      (Literal.upperBound? (patternStart capped))) := rfl
  obtain ⟨all, only⟩ := pattern_selected planned
  exact ⟨_, planned, by decide, fun text => ⟨only.mpr (fun _ => by decide) text, all text⟩⟩

def gapped : String := String.ofList ['a', Literal.beforeSurrogates, '%']

/-- The range lets a text in that the pattern does not hold for. -/
theorem pattern_range_too_wide :
    ∃ condition, patternCondition "v" (.string gapped) = .ok condition ∧
      condition.Selects (String.ofList ['a', Literal.afterSurrogates]) ∧
      likeHolds (String.ofList ['a', Literal.afterSurrogates]) gapped = false := by
  refine ⟨_, rfl, ⟨by decide, fun bound same => ?_⟩, by decide⟩
  have is : Literal.upperBound? (patternStart gapped) = some "b" := by decide
  rw [← Option.some.inj (is.symm.trans same)]
  decide

end StoreGateway

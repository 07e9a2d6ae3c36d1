import StoreGateway.Proofs.Clauses
import StoreGateway.Proofs.Conjunction

/-! Cutting text at a separator and at blanks, and putting lists together that are cut again. -/

namespace StoreGateway.Text

open StoreGateway.Filter

section Separators

variable {α : Type} {p : α → Bool}

/-- Where two texts meet, the last piece of the one and the first of the other become one. -/
theorem splitOnP_append (p : α → Bool) (a b : List α) :
    ∃ before last first after, a.splitOnP p = before ++ [last] ∧ b.splitOnP p = first :: after ∧
      (a ++ b).splitOnP p = before ++ (last ++ first) :: after := by
  obtain ⟨first, after, cut⟩ := List.exists_cons_of_ne_nil (List.splitOnP_ne_nil p b)
  induction a with
  | nil => exact ⟨[], [], first, after, rfl, cut, cut⟩
  | cons c a ih =>
    obtain ⟨before, last, first', after', left, right, both⟩ := ih
    rw [cut] at right
    cases right
    rw [List.cons_append, List.splitOnP_cons_eq_if_modifyHead, List.splitOnP_cons_eq_if_modifyHead,
      left, both]
    by_cases separates : p c = true
    · exact ⟨[] :: before, last, first, after, by rw [if_pos separates]; rfl, cut,
        by rw [if_pos separates]; rfl⟩
    · rw [if_neg separates, if_neg separates]
      cases before with
      | nil => exact ⟨[], c :: last, first, after, rfl, cut, rfl⟩
      | cons piece before => exact ⟨(c :: piece) :: before, last, first, after, rfl, cut, rfl⟩

theorem splitOnP_unbroken_append {front : List α} (unbroken : ∀ c ∈ front, p c = false)
    {cs first : List α} {after : List (List α)} (cut : cs.splitOnP p = first :: after) :
    (front ++ cs).splitOnP p = (front ++ first) :: after := by
  obtain ⟨before, last, first', after', left, right, both⟩ := splitOnP_append p front cs
  rw [cut] at right
  cases right
  rw [List.splitOnP_eq_singleton unbroken] at left
  cases before with
  | nil =>
    cases left
    exact both
  | cons piece before => simp at left

theorem splitOnP_map {β : Type} (q : β → Bool) (f : α → β) (same : ∀ a, q (f a) = p a)
    (as : List α) : (as.map f).splitOnP q = (as.splitOnP p).map (List.map f) := by
  induction as with
  | nil => rfl
  | cons a as ih =>
    rw [List.map_cons, List.splitOnP_cons_eq_if_modifyHead, List.splitOnP_cons_eq_if_modifyHead,
      same, ih]
    by_cases separates : p a = true
    · rw [if_pos separates, if_pos separates]
      rfl
    · rw [if_neg separates, if_neg separates]
      cases as.splitOnP p <;> rfl

theorem not_mem_of_mem_splitOn [DecidableEq α] {separator : α} {cs piece : List α}
    (member : piece ∈ cs.splitOn separator) : separator ∉ piece := by
  induction cs generalizing piece with
  | nil =>
    cases List.mem_singleton.mp member
    nofun
  | cons c cs ih =>
    obtain ⟨first, after, cut⟩ := List.exists_cons_of_ne_nil (List.splitOn_ne_nil separator cs)
    rw [List.splitOn_cons_eq_if_modifyHead] at member
    rw [cut] at member ih
    by_cases same : c = separator
    · rw [if_pos (beq_iff_eq.mpr same)] at member
      rcases List.mem_cons.mp member with rfl | inside
      · nofun
      · exact ih inside
    · rw [if_neg fun equal => same (beq_iff_eq.mp equal)] at member
      rcases List.mem_cons.mp member with rfl | inside
      · intro here
        rcases List.mem_cons.mp here with equal | here
        · exact same equal.symm
        · exact ih List.mem_cons_self here
      · exact ih (List.mem_cons_of_mem first inside)

end Separators

theorem pieces_eq (separator : Char) (cs : List Char) :
    (pieces separator cs).1 :: (pieces separator cs).2 = cs.splitOn separator := by
  induction cs with
  | nil => rfl
  | cons c cs ih =>
    rw [List.splitOn_cons_eq_if_modifyHead, ← ih, pieces]
    by_cases same : c = separator <;> simp [same]

theorem split_eq (separator : Char) (text : String) :
    split separator text = (text.toList.splitOn separator).map String.ofList := by
  rw [← pieces_eq]
  rfl

theorem wordsFrom_eq (cs : List Char) :
    ∃ after, cs.splitOnP isBlank = (wordsFrom cs).1 :: after ∧
      (wordsFrom cs).2 = after.filter (· ≠ []) := by
  induction cs with
  | nil => exact ⟨[], rfl, rfl⟩
  | cons c cs ih =>
    obtain ⟨after, cut, more⟩ := ih
    rw [List.splitOnP_cons_eq_if_modifyHead, cut, wordsFrom]
    by_cases blank : isBlank c = true
    · refine ⟨(wordsFrom cs).1 :: after, by simp [blank], ?_⟩
      by_cases empty : (wordsFrom cs).1 = [] <;> simp [blank, empty, more]
    · exact ⟨after, by simp [blank], by simp [blank, more]⟩

theorem words_eq (text : String) :
    words text = ((text.toList.splitOnP isBlank).filter (· ≠ [])).map String.ofList := by
  obtain ⟨after, cut, more⟩ := wordsFrom_eq text.toList
  rw [cut]
  unfold words
  simp only [more]
  by_cases empty : (wordsFrom text.toList).1 = [] <;> simp [empty]

/-- A part of a comma-separated list, as it is taken out of it. -/
structure IsPart (part : List Char) : Prop where
  trimmed : Trimmed part
  no_comma : ',' ∉ part

theorem trimmed_trimChars {cs : List Char} (present : trimChars cs ≠ []) :
    Trimmed (trimChars cs) := by
  have ends (ds : List Char) : ∀ c ∈ (ds.dropWhile isBlank).head?, isBlank c = false := by
    intro c first
    have shown := List.head?_dropWhile_not isBlank ds
    rw [Option.mem_def.mp first] at shown
    simpa using shown
  refine ⟨present, fun c first => ?_, fun c last => ?_⟩
  · obtain ⟨rest, same⟩ := List.head?_eq_some_iff.mp first
    have starts : cs.dropWhile isBlank = c :: (rest ++ (cs.dropWhile isBlank).drop
        (trimChars cs).length) := by
      have whole := List.prefix_iff_eq_append.mp (Select.trimEnd_prefix (cs.dropWhile isBlank))
      change trimChars cs ++ _ = _ at whole
      rw [← List.cons_append, ← same]
      exact whole.symm
    exact ends cs c (by rw [starts]; rfl)
  · rw [trimChars, trimEnd, List.getLast?_reverse] at last
    exact ends _ c last

theorem isPart_of_mem {text part : String} (member : part ∈ commaList text) :
    IsPart part.toList := by
  obtain ⟨inside, present⟩ := List.mem_filter.mp member
  obtain ⟨piece, cut, rfl⟩ := List.mem_map.mp inside
  rw [split_eq] at cut
  obtain ⟨cs, among, rfl⟩ := List.mem_map.mp cut
  have shown : trimChars cs ≠ [] := by
    intro empty
    rw [trim, String.toList_ofList, empty] at present
    simp at present
  rw [trim, String.toList_ofList, String.toList_ofList]
  refine ⟨trimmed_trimChars shown, fun comma => not_mem_of_mem_splitOn among ?_⟩
  obtain ⟨front, back, whole, -⟩ := trimChars_splits cs
  rw [whole]
  exact List.mem_append_left back (List.mem_append_right front comma)

theorem trim_of_part {part : String} (is : IsPart part.toList) : trim part = part := by
  rw [trim, trimChars_of_trimmed is.trimmed, String.ofList_toList]

theorem splitOn_listed {part : List Char} {more : List (List Char)}
    (all : ∀ t ∈ part :: more, ',' ∉ t) :
    ([',', ' '].intercalate (part :: more)).splitOn ',' = part :: more.map (' ' :: ·) := by
  have same : [',', ' '].intercalate (part :: more) =
      [','].intercalate (part :: more.map (' ' :: ·)) := by
    clear all
    induction more generalizing part with
    | nil => rfl
    | cons next more ih =>
      rw [List.intercalate_cons_cons, ih, List.map_cons, List.intercalate_cons_cons]
      cases more <;> simp [List.intercalate_cons_cons]
  rw [same, List.splitOn_intercalate ',' (fun t member comma => ?_) (List.cons_ne_nil _ _)]
  rcases List.mem_cons.mp member with rfl | inside
  · exact all t List.mem_cons_self comma
  · obtain ⟨u, among, rfl⟩ := List.mem_map.mp inside
    rcases List.mem_cons.mp comma with blank | comma
    · exact absurd blank (by decide)
    · exact all u (List.mem_cons_of_mem part among) comma

theorem split_listed {parts : List String} (present : parts ≠ [])
    (each : ∀ part ∈ parts, IsPart part.toList) :
    (split ',' (", ".intercalate parts)).map trim = parts := by
  cases parts with
  | nil => exact absurd rfl present
  | cons part more =>
    have separator : ", ".toList = [',', ' '] := by decide
    have behind (t : String) (member : t ∈ more) : trim (String.ofList (' ' :: t.toList)) = t := by
      rw [trim, String.toList_ofList]
      exact trim_of_part (each t (List.mem_cons_of_mem part member))
    have all : ∀ t ∈ part.toList :: more.map String.toList, ',' ∉ t := by
      rw [← List.map_cons]
      rintro _ member
      obtain ⟨t, inside, rfl⟩ := List.mem_map.mp member
      exact (each t inside).no_comma
    rw [split_eq, String.toList_intercalate, separator, List.map_cons, splitOn_listed all]
    simp only [List.map_cons, List.map_map, String.ofList_toList,
      trim_of_part (each part List.mem_cons_self)]
    refine congrArg (part :: ·) ?_
    calc more.map (trim ∘ String.ofList ∘ (' ' :: ·) ∘ String.toList)
        = more.map id := List.map_congr_left behind
      _ = more := List.map_id more

theorem commaList_listed {parts : List String} (present : parts ≠ [])
    (each : ∀ part ∈ parts, IsPart part.toList) :
    commaList (", ".intercalate parts) = parts := by
  unfold commaList
  rw [split_listed present each, List.filter_eq_self]
  intro part member
  have shown : part ≠ "" := by
    rintro rfl
    exact (each "" member).trimmed.present rfl
  simpa using shown

theorem trimmed_listed {parts : List String} (present : parts ≠ [])
    (each : ∀ part ∈ parts, IsPart part.toList) : Trimmed (", ".intercalate parts).toList := by
  induction parts with
  | nil => exact absurd rfl present
  | cons part more ih =>
    have first := (each part List.mem_cons_self).trimmed
    cases more with
    | nil => rwa [String.intercalate_singleton]
    | cons next more =>
      have rest := ih (List.cons_ne_nil next more) fun t member =>
        each t (List.mem_cons_of_mem part member)
      rw [String.intercalate_cons_cons, String.toList_append, String.toList_append]
      exact first.join rest ", ".toList

end StoreGateway.Text

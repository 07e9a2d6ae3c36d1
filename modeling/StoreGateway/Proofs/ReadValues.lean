import StoreGateway.Json.Reader
import StoreGateway.Proofs.Coerced
import StoreGateway.Proofs.Nearest
import StoreGateway.Proofs.OrderedRecords
import StoreGateway.Proofs.Rereading

/-!
What is read from a text can be written and read back. Main statement: values that come out of a text,
or of the text of another value, hold only numbers of the format and are nested no deeper than texts are
read.
-/

namespace StoreGateway

namespace Binary64

/-- Rounding a quotient does not pass a number of the format. -/
theorem roundSteps_quotient_le {num den steps : Nat} (some : 0 < den)
    (exact_ : gapAbove steps ∣ steps) (le : num ≤ steps * den) : roundSteps num den ≤ steps := by
  have quotient : num / den ≤ steps := Nat.div_le_of_le_mul (Nat.mul_comm steps den ▸ le)
  have coarser : 2 ^ ((num / den).log2 + 1 - 53) ∣ steps := by
    have bits := log2_mono quotient
    exact Nat.dvd_trans (Nat.pow_dvd_pow 2 (by omega)) exact_
  unfold roundSteps
  simp only [Nat.pow_eq]
  have gap_pos := Nat.two_pow_pos ((num / den).log2 + 1 - 53)
  generalize 2 ^ ((num / den).log2 + 1 - 53) = gap at coarser gap_pos ⊢
  obtain ⟨count, rfl⟩ := coarser
  have within : num ≤ count * (den * gap) := by
    rwa [Nat.mul_comm gap count, Nat.mul_assoc, Nat.mul_comm gap den] at le
  have rounded := roundQuotient_mono (den * gap) within
  rw [roundQuotient_mul count (Nat.mul_pos some gap_pos)] at rounded
  rw [Nat.mul_comm gap count]
  exact Nat.mul_le_mul_right gap rounded

theorem Formed.div {x y : Binary64} (formed : x.Formed) (whole : stepsInOne ≤ y.steps) :
    (x.div y).Formed := by
  refine ⟨Nat.lt_of_le_of_lt (roundSteps_quotient_le ?_ formed.exact ?_) formed.bounded,
    gapAbove_roundSteps _ _⟩
  · exact Nat.lt_of_lt_of_le stepsInOne_pos whole
  · exact Nat.mul_le_mul_left x.steps whole

end Binary64

namespace Json

open Binary64

theorem stepsInOne_le_tenToThe (n : Nat) : stepsInOne ≤ (tenToThe n).steps := by
  obtain ⟨bits, power⟩ := stepsInOne_power
  have whole : gapAbove stepsInOne ∣ stepsInOne := by
    rw [power]
    exact gapAbove_dvd_power (Nat.le_of_eq Nat.log2_two_pow)
  calc stepsInOne
    _ = roundSteps stepsInOne 1 := (roundSteps_exact whole).symm
    _ ≤ roundSteps (10 ^ n * stepsInOne) 1 :=
      roundSteps_mono (Nat.le_mul_of_pos_left _ (Nat.pow_pos (by decide)))

theorem formed_divideByTenTo {x : Binary64} (formed : x.Formed) (n : Nat) :
    (divideByTenTo x n).Formed := by
  fun_induction divideByTenTo x n with
  | case1 x n few => exact formed.div (stepsInOne_le_tenToThe n)
  | case2 x n many zero => exact formed
  | case3 x n many nonzero ih => exact ih (formed.div (stepsInOne_le_tenToThe 308))

theorem absorb_le {n : Nat} (cs : List Char) (fits : n ≤ maxUInt64) : (absorb n cs).1 ≤ maxUInt64 := by
  induction cs generalizing n with
  | nil => exact fits
  | cons c cs ih =>
    rw [absorb]
    split
    · next next => exact ih next
    · exact fits

theorem formed_floatOfParts {negative : Bool} {digits : Nat} {exponent : Int} {x : Binary64}
    (fits : digits ≤ maxUInt64) (made : floatOfParts negative digits exponent = .ok x) : x.Formed := by
  have whole := formed_whole negative fits
  unfold floatOfParts at made
  simp only at made
  split at made
  · cases made
    exact formed_divideByTenTo whole _
  · split at made
    · split at made
      · next y finite =>
        cases made
        exact formed_of_finite finite
      · cases made
    · split at made
      · cases made
        exact whole
      · cases made

theorem formed_value {n : Numeral} {v : Value} (made : n.value = .ok v) (depth : Nat) :
    v.Formed depth := by
  have most := absorb_le n.whole (n := 0) (Nat.zero_le _)
  unfold Numeral.value at made
  simp only at made
  split at made
  · cases made
    unfold wholeNumber
    split
    · trivial
    · split
      · exact formed_whole true most
      · trivial
  · obtain ⟨x, parts, rfl⟩ := map_ok made
    rw [Value.Formed]
    exact formed_floatOfParts (absorb_le _ most) parts

theorem formed_readNumber {cs rest : List Char} {v : Value} (read : readNumber cs = .ok (v, rest))
    (depth : Nat) : v.Formed depth := by
  obtain ⟨⟨n, after⟩, -, read⟩ := bind_ok read
  obtain ⟨w, made, read⟩ := bind_ok read
  cases read
  exact formed_value made depth

theorem formed_readName {name cs rest : List Char} {v w : Value} {depth : Nat} (formed : w.Formed depth)
    (read : readName name w cs = .ok (v, rest)) : v.Formed depth := by
  unfold readName at read
  split at read
  · cases read
    exact formed
  · cases read

theorem formed_readAtom {c : Char} {cs rest : List Char} {v : Value}
    (read : readAtom c cs = .ok (v, rest)) (depth : Nat) : v.Formed depth := by
  unfold readAtom at read
  split at read
  · exact formed_readNumber read depth
  · unfold readNamed at read
    split at read
    · exact formed_readName (w := .null) trivial read
    · split at read
      · exact formed_readName (w := .bool true) trivial read
      · split at read
        · exact formed_readName (w := .bool false) trivial read
        · cases read

mutual

theorem formed_readValue (wanted : Wanted) (depth : Nat) {cs : List Char} {reading : Reading Value cs}
    (read : readValue wanted depth cs = .ok reading) : reading.found.Formed depth := by
  unfold readValue at read
  split at read
  · obtain ⟨skipped, -, read⟩ := bind_ok read
    cases read
    trivial
  · cases read
  · obtain ⟨s, -, read⟩ := bind_ok read
    cases read
    trivial
  · cases depth with
    | zero => cases read
    | succ depth =>
      obtain ⟨items, within, read⟩ := bind_ok read
      cases read
      rw [Value.Formed]
      exact formed_readItems wanted depth within
  · cases depth with
    | zero => cases read
    | succ depth =>
      obtain ⟨members, within, read⟩ := bind_ok read
      cases read
      rw [Value.Formed]
      exact formed_readMembers wanted depth within
  · obtain ⟨⟨v, rest⟩, atom, read⟩ := bind_ok read
    simp only at read
    split at read
    · cases read
      exact formed_readAtom atom depth
    · cases read
termination_by (cs.length, 0)

theorem formed_readItems (wanted : Wanted) (depth : Nat) {first : Bool} {cs : List Char}
    {reading : Reading (List Value) cs} (read : readItems wanted depth first cs = .ok reading) :
    Value.FormedItems depth reading.found := by
  unfold readItems at read
  split at read
  · cases read
  · next c afterFirst skipped =>
    have shorter := length_lt_of_skipSpaces skipped
    have := length_skipSpaces_le afterFirst
    simp only at read
    split at read
    · cases read
      trivial
    · split at read
      · obtain ⟨item, one, read⟩ := bind_ok read
        obtain ⟨items, others, read⟩ := bind_ok read
        cases read
        have := item.shorter
        rw [Value.FormedItems]
        exact ⟨formed_readValue _ depth one, formed_readItems _ depth others⟩
      · split at read
        · obtain ⟨item, one, read⟩ := bind_ok read
          obtain ⟨items, others, read⟩ := bind_ok read
          cases read
          have := item.shorter
          rw [Value.FormedItems]
          exact ⟨formed_readValue _ depth one, formed_readItems _ depth others⟩
        · cases read
termination_by (cs.length, 1)
decreasing_by all_goals simp only [Prod.lex_def, List.length_cons] at *; omega

theorem formed_readMembers (wanted : Wanted) (depth : Nat) {first : Bool} {cs : List Char}
    {reading : Reading (List (String × Value)) cs}
    (read : readMembers wanted depth first cs = .ok reading) :
    Value.FormedMembers depth reading.found := by
  unfold readMembers at read
  split at read
  · cases read
  · next c afterFirst skipped =>
    have shorter := length_lt_of_skipSpaces skipped
    have := length_skipSpaces_le afterFirst
    simp only at read
    split at read
    · cases read
      trivial
    · split at read
      · obtain ⟨member, one, read⟩ := bind_ok read
        obtain ⟨members, others, read⟩ := bind_ok read
        cases read
        have := member.shorter
        rw [Value.FormedMembers]
        exact ⟨formed_readMember _ depth one, formed_readMembers _ depth others⟩
      · split at read
        · obtain ⟨member, one, read⟩ := bind_ok read
          obtain ⟨members, others, read⟩ := bind_ok read
          cases read
          have := member.shorter
          rw [Value.FormedMembers]
          exact ⟨formed_readMember _ depth one, formed_readMembers _ depth others⟩
        · cases read
termination_by (cs.length, 1)
decreasing_by all_goals simp only [Prod.lex_def, List.length_cons] at *; omega

theorem formed_readMember (wanted : Wanted) (depth : Nat) {cs : List Char}
    {reading : Reading (String × Value) cs} (read : readMember wanted depth cs = .ok reading) :
    reading.found.2.Formed depth := by
  unfold readMember at read
  obtain ⟨name, named, read⟩ := bind_ok read
  obtain ⟨v, valued, read⟩ := bind_ok read
  cases read
  have := name.shorter
  exact formed_readValue _ depth valued
termination_by (cs.length, 0)
decreasing_by all_goals simp only [Prod.lex_def] at *; omega

end

theorem formedMembers_iff {depth : Nat} {members : List (String × Value)} :
    Value.FormedMembers depth members ↔ ∀ m ∈ members, m.2.Formed depth := by
  induction members with
  | nil => exact ⟨nofun, fun _ => trivial⟩
  | cons m rest ih => rw [Value.FormedMembers, ih, List.forall_mem_cons]

mutual

theorem formed_sorted {depth : Nat} {v : Value} (formed : v.Formed depth) : (sorted v).Formed depth := by
  cases v with
  | array items =>
    cases depth with
    | zero => cases formed
    | succ depth =>
      rw [Value.Formed] at formed
      rw [sorted, Value.Formed]
      exact formed_sortedItems formed
  | object members =>
    cases depth with
    | zero => cases formed
    | succ depth =>
      rw [Value.Formed] at formed
      rw [sorted, Value.Formed, formedMembers_iff]
      intro m member
      rcases Record.mem_extend member with inside | inside
      · cases inside
      · exact formedMembers_iff.mp (formed_sortedMembers formed) m inside
  | null => exact formed
  | bool b => exact formed
  | int i => exact formed
  | float x => exact formed
  | string s => exact formed

theorem formed_sortedItems {depth : Nat} {items : List Value} (formed : Value.FormedItems depth items) :
    Value.FormedItems depth (sortedItems items) := by
  cases items with
  | nil => exact formed
  | cons v rest =>
    rw [Value.FormedItems] at formed
    rw [sortedItems, Value.FormedItems]
    exact ⟨formed_sorted formed.1, formed_sortedItems formed.2⟩

theorem formed_sortedMembers {depth : Nat} {members : List (String × Value)}
    (formed : Value.FormedMembers depth members) : Value.FormedMembers depth (sortedMembers members) := by
  cases members with
  | nil => exact formed
  | cons m rest =>
    rw [Value.FormedMembers] at formed
    rw [sortedMembers, Value.FormedMembers]
    exact ⟨formed_sorted formed.1, formed_sortedMembers formed.2⟩

end

theorem formed_read {text : String} {v : Value} (made : read text = .ok v) : v.Formed maxDepth := by
  obtain ⟨w, written, rfl⟩ := map_ok made
  obtain ⟨reading, value, ended⟩ := bind_ok written
  simp only at ended
  split at ended
  · cases ended
    exact formed_sorted (formed_readValue .all maxDepth value)
  · cases ended

theorem formed_readRecord {text : String} {r : Record} (made : read text = .ok (.object r)) :
    r.Formed := by
  have formed := formed_read made
  rw [show maxDepth = maxDepth - 1 + 1 from rfl, Value.Formed] at formed
  exact formed

theorem formed_reread {x y : Binary64} (read : reread? x = some y) : y.Formed := by
  unfold reread? at read
  split at read
  · next number =>
    cases read
    have formed := formed_readNumber number 0
    rwa [Value.Formed] at formed
  · cases read

mutual

theorem formed_rereadValue {depth : Nat} {v w : Value} (read : rereadValue depth v = .ok w) :
    w.Formed depth := by
  cases v with
  | float x =>
    rw [rereadValue] at read
    split at read
    · next y again =>
      cases read
      rw [Value.Formed]
      exact formed_reread again
    · cases read
  | array items =>
    cases depth with
    | zero => cases read
    | succ depth =>
      rw [rereadValue] at read
      obtain ⟨others, within, rfl⟩ := map_ok read
      rw [Value.Formed]
      exact formed_rereadItems within
  | object members =>
    cases depth with
    | zero => cases read
    | succ depth =>
      rw [rereadValue] at read
      obtain ⟨others, within, rfl⟩ := map_ok read
      rw [Value.Formed]
      exact formed_rereadMembers within
  | null => cases read; trivial
  | bool b => cases read; trivial
  | int i => cases read; trivial
  | string s => cases read; trivial

theorem formed_rereadItems {depth : Nat} {items others : List Value}
    (read : rereadItems depth items = .ok others) : Value.FormedItems depth others := by
  cases items with
  | nil =>
    cases read
    trivial
  | cons v rest =>
    obtain ⟨w, one, read⟩ := bind_ok read
    obtain ⟨more, all, read⟩ := bind_ok read
    cases read
    rw [Value.FormedItems]
    exact ⟨formed_rereadValue one, formed_rereadItems all⟩

theorem formed_rereadMembers {depth : Nat} {members others : List (String × Value)}
    (read : rereadMembers depth members = .ok others) : Value.FormedMembers depth others := by
  cases members with
  | nil =>
    cases read
    trivial
  | cons m rest =>
    obtain ⟨w, one, read⟩ := bind_ok read
    obtain ⟨more, all, read⟩ := bind_ok read
    cases read
    rw [Value.FormedMembers]
    exact ⟨formed_rereadValue one, formed_rereadMembers all⟩

end

theorem formed_rereadRecord {r q : Record} (read : rereadRecord r = .ok q) : q.Formed :=
  formed_rereadMembers read

end Json

end StoreGateway

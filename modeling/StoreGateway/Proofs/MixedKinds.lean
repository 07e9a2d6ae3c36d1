import StoreGateway.Proofs.Sorting

/-!
Sorting records whose fields hold values of several kinds. Main statement: comparing records is turned
round by comparing the other way round, but it orders records only if no key finds a value beside two
of another kind of which one comes after the other.
-/

namespace StoreGateway

namespace SortKey

variable {key : SortKey} {keys : List SortKey} {records : List Record}

theorem not_mixes_of_ordersAll (orders : OrdersAll [key] records) : ¬ key.Mixes records := by
  rintro ⟨u, great, v, less, w, apart, greater, unlike⟩
  obtain ⟨r, member, here⟩ := mem_values.mp great
  obtain ⟨s, member', there⟩ := mem_values.mp less
  obtain ⟨t, member'', between⟩ := mem_values.mp apart
  have unlike' : w.compare? v = none := by
    cases compared : w.compare? v with
    | none => rfl
    | some order =>
      obtain ⟨other, same⟩ :=
        Value.compare?_kin (Value.compare?_swap compared) (Value.compare?_swap greater)
      rw [Value.compare?_swap same] at unlike
      cases unlike
  have first : compareValues (r.get? key.field) (t.get? key.field) = .eq := by
    rw [here, between, compareValues, unlike]
    rfl
  have second : compareValues (t.get? key.field) (s.get? key.field) = .eq := by
    rw [between, there, compareValues, unlike']
    rfl
  have outer : compareValues (r.get? key.field) (s.get? key.field) = .gt := by
    rw [here, there, compareValues, greater]
    rfl
  have even : key.compare r t = .eq ∧ key.compare t s = .eq := by
    rw [compare, compare, first, second]
    split <;> exact ⟨rfl, rfl⟩
  by_cases down : key.descending = true
  · refine orders s member' t member'' r member ?_ ?_ ?_
    · rw [compareAll_single, compare_swap, even.2]
      decide
    · rw [compareAll_single, compare_swap, even.1]
      decide
    · rw [compareAll_single, compare_swap, compare, outer, if_pos down]
      rfl
  · refine orders r member t member'' s member' ?_ ?_ ?_
    · rw [compareAll_single, even.1]
      decide
    · rw [compareAll_single, even.2]
      decide
    · rw [compareAll_single, compare, outer, if_neg down]

theorem not_ordersAll_of_cons (key : SortKey) (keys : List SortKey) :
    ∃ records, ¬ OrdersAll (key :: keys) records := by
  let only (v : Value) : Record := [(key.field, v)]
  have get (v : Value) (other : SortKey) : (only v).get? other.field =
      if other.field = key.field then some v else none :=
    lookup_cons_eq_ite other.field key.field v []
  have even (all : List SortKey) (i : Int) (s : String) :
      compareAll all (only (.int i)) (only (.string s)) = .eq := by
    induction all with
    | nil => rfl
    | cons other all ih =>
      have first : other.compare (only (.int i)) (only (.string s)) = .eq := by
        rw [compare, get, get]
        by_cases same : other.field = key.field
        · rw [if_pos same, if_pos same]
          cases other.descending <;> rfl
        · rw [if_neg same, if_neg same]
          cases other.descending <;> rfl
      rw [compareAll_cons, first, ih]
      rfl
  have outer : compareAll (key :: keys) (only (.int 2)) (only (.int 1)) =
      if key.descending then .lt else .gt := by
    have compared : compareValues ((only (.int 2)).get? key.field)
        ((only (.int 1)).get? key.field) = .gt := by
      rw [get, get, if_pos rfl, if_pos rfl]
      decide +kernel
    rw [compareAll_cons, compare, compared]
    split <;> rfl
  refine ⟨[only (.int 2), only (.string "x"), only (.int 1)], fun orders => ?_⟩
  have up := orders (only (.int 2)) (by simp) (only (.string "x")) (by simp) (only (.int 1)) (by simp)
  have down := orders (only (.int 1)) (by simp) (only (.string "x")) (by simp) (only (.int 2)) (by simp)
  rw [even, compareAll_swap _ (only (.int 1)), even, outer] at up
  rw [even, compareAll_swap _ (only (.int 2)), even, compareAll_swap _ (only (.int 2)), outer] at down
  cases direction : key.descending with
  | true =>
    rw [direction] at down
    exact down (by decide) (by decide) rfl
  | false =>
    rw [direction] at up
    exact up (by decide) (by decide) rfl

end SortKey

open SortKey

/-- For every order that a request names, comparing records the other way round gives the opposite.
Records are put into one order if no key mixes kinds among them; by a single key they are only then,
and all records are only if no key is named at all. -/
theorem ordered_unless_mixed (qualifier : Option String) (orderBy : String) :
    let keys := SortKey.ofText qualifier orderBy
    (∀ r s, compareAll keys s r = (compareAll keys r s).swap) ∧
      (∀ records, (∀ key ∈ keys, ¬ key.Mixes records) → OrdersAll keys records ∧
        (Record.sortBy orderBy qualifier records).Pairwise
          fun earlier later => compareAll keys earlier later ≠ .gt) ∧
      (∀ key, keys = [key] → ∀ records, OrdersAll keys records ↔ ¬ key.Mixes records) ∧
      ((∀ records, OrdersAll keys records) ↔ keys = []) := by
  intro keys
  refine ⟨compareAll_swap keys, fun records unmixed => ⟨ordersAll_of_unmixed unmixed,
    Record.sorted_sortByKeys (ordersAll_of_unmixed unmixed)⟩, fun key one records => ?_,
    fun orders => ?_, fun none => ?_⟩
  · rw [one]
    refine ⟨not_mixes_of_ordersAll, fun unmixed => ordersAll_of_unmixed fun other member => ?_⟩
    rw [List.mem_singleton.mp member]
    exact unmixed
  · cases named : keys with
    | nil => rfl
    | cons key others =>
      rw [named] at orders
      obtain ⟨records, unordered⟩ := not_ordersAll_of_cons key others
      exact absurd (orders records) unordered
  · rw [none]
    exact fun records => ordersAll_of_unmixed fun key member => absurd member List.not_mem_nil

/-- A text is even with both of two numbers, and keeps the lesser behind the greater. -/
theorem mixed_kinds_unordered :
    let keys := SortKey.ofText none "v"
    let two : Record := [("v", .int 2)]
    let text : Record := [("v", .string "x")]
    let one : Record := [("v", .int 1)]
    compareAll keys two text = .eq ∧ compareAll keys text one = .eq ∧
      compareAll keys two one = .gt ∧ ¬ OrdersAll keys [two, text, one] ∧
      Record.sortBy "v" none [two, text, one] = [two, text, one] := by
  intro keys two text one
  have first : compareAll keys two text = .eq := by decide +kernel
  have second : compareAll keys text one = .eq := by decide +kernel
  have outer : compareAll keys two one = .gt := by decide +kernel
  refine ⟨first, second, outer, fun orders => ?_, ?_⟩
  · refine orders two (by simp) text (by simp) one (by simp) ?_ ?_ outer
    · rw [first]
      decide
    · rw [second]
      decide
  · have behind : compareAll keys text two = .eq := by rw [compareAll_swap, first]; rfl
    have behind' : compareAll keys one text = .eq := by rw [compareAll_swap, second]; rfl
    have sorted : Record.sortByKeys keys [two, text, one] = [two, text, one] := by
      simp [Record.sortByKeys, Record.insertBehind, behind, behind']
    exact sorted

end StoreGateway

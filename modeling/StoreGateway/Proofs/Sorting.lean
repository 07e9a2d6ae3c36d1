import StoreGateway.Proofs.Answers
import StoreGateway.SortOrder

/-! Sorted records: in the order of the keys, and by runs that need not be mixed. -/

namespace StoreGateway

namespace Value

theorem compare?_cases {v w : Value} {order : Ordering} (compared : v.compare? w = some order) :
    (∃ x y, v.toBinary64? = some x ∧ w.toBinary64? = some y ∧
        order = Ord.compare x.toSteps y.toSteps) ∨
      (∃ s t, v = .string s ∧ w = .string t ∧ order = Ord.compare s t) ∨
      ∃ p q, v = .bool p ∧ w = .bool q ∧ order = Ord.compare p q := by
  unfold compare? at compared
  split at compared
  · next x y left right =>
    cases compared
    exact .inl ⟨x, y, left, right, rfl⟩
  · split at compared
    · cases compared
      exact .inr (.inl ⟨_, _, rfl, rfl, rfl⟩)
    · cases compared
      exact .inr (.inr ⟨_, _, rfl, rfl, rfl⟩)
    · cases compared

theorem compare?_numbers {v w : Value} {x y : Binary64} (left : v.toBinary64? = some x)
    (right : w.toBinary64? = some y) :
    v.compare? w = some (Ord.compare x.toSteps y.toSteps) := by
  unfold compare?
  simp only [left, right]
  rfl

theorem compare?_swap {v w : Value} {order : Ordering} (compared : v.compare? w = some order) :
    w.compare? v = some order.swap := by
  rcases compare?_cases compared with ⟨x, y, left, right, rfl⟩ | ⟨s, t, rfl, rfl, rfl⟩ |
    ⟨p, q, rfl, rfl, rfl⟩
  · have swapped : Ord.compare x.toSteps y.toSteps = _ := Std.OrientedCmp.eq_swap
    rw [compare?_numbers right left, swapped, Ordering.swap_swap]
  · have swapped : Ord.compare s t = _ := Std.OrientedCmp.eq_swap
    rw [swapped]
    simp [compare?, toBinary64?]
  · have swapped : Ord.compare p q = _ := Std.OrientedCmp.eq_swap
    rw [swapped]
    simp [compare?, toBinary64?]

theorem compare?_trans {u v w : Value} {first second third : Ordering}
    (compared : u.compare? v = some first) (compared' : v.compare? w = some second)
    (outer : u.compare? w = some third) (before : first.isLE = true) (after : second.isLE = true) :
    third.isLE = true := by
  rcases compare?_cases compared with ⟨x, y, left, right, rfl⟩ | ⟨s, t, rfl, rfl, rfl⟩ |
    ⟨p, q, rfl, rfl, rfl⟩
  · rcases compare?_cases compared' with ⟨y', z, left', right', rfl⟩ | ⟨s, t, rfl, rfl, rfl⟩ |
      ⟨p, q, rfl, rfl, rfl⟩
    · rw [right] at left'
      cases left'
      rw [compare?_numbers left right'] at outer
      cases outer
      exact Std.TransCmp.isLE_trans before after
    · cases right
    · cases right
  · rcases compare?_cases compared' with ⟨y', z, left', right', rfl⟩ | ⟨s', t', same, rfl, rfl⟩ |
      ⟨p, q, other, rfl, rfl⟩
    · cases left'
    · cases same
      cases outer
      exact Std.TransCmp.isLE_trans before after
    · cases other
  · rcases compare?_cases compared' with ⟨y', z, left', right', rfl⟩ | ⟨s', t', other, rfl, rfl⟩ |
      ⟨p', q', same, rfl, rfl⟩
    · cases left'
    · cases other
    · cases same
      cases outer
      exact Std.TransCmp.isLE_trans before after

theorem compare?_kin {u v w : Value} {first second : Ordering} (compared : u.compare? v = some first)
    (compared' : u.compare? w = some second) : ∃ order, v.compare? w = some order := by
  rcases compare?_cases compared with ⟨x, y, left, right, -⟩ | ⟨s, t, rfl, rfl, -⟩ |
    ⟨p, q, rfl, rfl, -⟩
  · rcases compare?_cases compared' with ⟨x', z, -, right', -⟩ | ⟨s, t, rfl, -, -⟩ |
      ⟨p, q, rfl, -, -⟩
    · exact ⟨_, compare?_numbers right right'⟩
    · cases left
    · cases left
  · rcases compare?_cases compared' with ⟨x, z, left, -, -⟩ | ⟨s', t', -, rfl, -⟩ |
      ⟨p, q, other, -, -⟩
    · cases left
    · exact ⟨Ord.compare t t', by simp [compare?, toBinary64?]⟩
    · cases other
  · rcases compare?_cases compared' with ⟨x, z, left, -, -⟩ | ⟨s, t, other, -, -⟩ |
      ⟨p', q', -, rfl, -⟩
    · cases left
    · cases other
    · exact ⟨Ord.compare q q', by simp [compare?, toBinary64?]⟩

end Value

namespace SortKey

/-- Every one of some records has the field, and all its values compare. -/
def Orders (key : SortKey) (records : List Record) : Prop :=
  ∀ r ∈ records, ∀ s ∈ records, ∃ v w order,
    r.get? key.field = some v ∧ s.get? key.field = some w ∧ v.compare? w = some order

instance (key : SortKey) (records : List Record) : Decidable (key.Orders records) :=
  decidable_of_iff (∀ r ∈ records, ∀ s ∈ records,
      ((r.get? key.field).bind fun v => (s.get? key.field).bind v.compare?).isSome = true) (by
    refine forall₄_congr fun r _ s _ => ?_
    rw [Option.isSome_iff_exists]
    simp only [Option.bind_eq_some_iff]
    exact ⟨fun ⟨order, v, here, w, there, compared⟩ => ⟨v, w, order, here, there, compared⟩,
      fun ⟨v, w, order, here, there, compared⟩ => ⟨order, v, here, w, there, compared⟩⟩)

def values (key : SortKey) (records : List Record) : List Value :=
  records.filterMap fun r => r.get? key.field

/-- Beside two values of which one comes after the other there is one that compares with neither. -/
def Mixes (key : SortKey) (records : List Record) : Prop :=
  ∃ u ∈ key.values records, ∃ v ∈ key.values records, ∃ w ∈ key.values records,
    u.compare? v = some .gt ∧ u.compare? w = none

instance (key : SortKey) (records : List Record) : Decidable (key.Mixes records) :=
  inferInstanceAs (Decidable (∃ u ∈ key.values records, ∃ v ∈ key.values records,
    ∃ w ∈ key.values records, u.compare? v = some .gt ∧ u.compare? w = none))

variable {key : SortKey} {keys : List SortKey} {records : List Record}

theorem mem_values {v : Value} :
    v ∈ key.values records ↔ ∃ r ∈ records, r.get? key.field = some v :=
  List.mem_filterMap

theorem Orders.not_mixes (orders : key.Orders records) : ¬ key.Mixes records := by
  rintro ⟨u, here, v, -, w, there, -, apart⟩
  obtain ⟨r, member, has⟩ := mem_values.mp here
  obtain ⟨s, member', has'⟩ := mem_values.mp there
  obtain ⟨u', w', order, same, same', compared⟩ := orders r member s member'
  cases has.symm.trans same
  cases has'.symm.trans same'
  rw [apart] at compared
  cases compared

theorem compareValues_swap (a b : Option Value) : compareValues b a = (compareValues a b).swap := by
  cases a with
  | none => cases b <;> rfl
  | some v =>
    cases b with
    | none => rfl
    | some w =>
      rw [compareValues, compareValues]
      cases forth : v.compare? w with
      | some order =>
        rw [Value.compare?_swap forth]
        rfl
      | none =>
        cases back : w.compare? v with
        | none => rfl
        | some order =>
          rw [Value.compare?_swap back] at forth
          cases forth

theorem compare_swap (key : SortKey) (r s : Record) : key.compare s r = (key.compare r s).swap := by
  unfold compare
  rw [compareValues_swap]
  split <;> rfl

theorem compareValues_trans {a b c : Option Value}
    (kin : ∀ u v w, a = some u → b = some v → c = some w → u.compare? w = some .gt →
      u.compare? v ≠ none)
    (before : (compareValues a b).isLE = true) (after : (compareValues b c).isLE = true) :
    (compareValues a c).isLE = true := by
  cases c with
  | none => cases a <;> rfl
  | some w =>
    cases b with
    | none => cases after
    | some v =>
      cases a with
      | none => cases before
      | some u =>
        cases outer : u.compare? w with
        | none => rw [compareValues, outer]; rfl
        | some order =>
          rw [compareValues, outer]
          cases order with
          | lt => rfl
          | eq => rfl
          | gt =>
            obtain ⟨first, compared⟩ :=
              Option.ne_none_iff_exists'.mp (kin u v w rfl rfl rfl outer)
            obtain ⟨second, compared'⟩ := Value.compare?_kin compared outer
            rw [compareValues, compared] at before
            rw [compareValues, compared'] at after
            exact Value.compare?_trans compared compared' outer before after

def among (key : SortKey) (records : List Record) (r s : { r // r ∈ records }) : Ordering :=
  key.compare r.1 s.1

def allAmong (keys : List SortKey) (records : List Record) (r s : { r // r ∈ records }) : Ordering :=
  compareAll keys r.1 s.1

theorem transCmp_among (unmixed : ¬ key.Mixes records) : Std.TransCmp (key.among records) := by
  have kin (r s t : { r // r ∈ records }) (u v w : Value) (here : r.1.get? key.field = some u)
      (between : s.1.get? key.field = some v) (there : t.1.get? key.field = some w)
      (greater : u.compare? w = some .gt) : u.compare? v ≠ none := fun apart =>
    unmixed ⟨u, mem_values.mpr ⟨r, r.2, here⟩, w, mem_values.mpr ⟨t, t.2, there⟩,
      v, mem_values.mpr ⟨s, s.2, between⟩, greater, apart⟩
  refine @Std.TransCmp.mk _ _ ⟨fun {r s} => compare_swap key s.1 r.1⟩ fun {r s t} before after => ?_
  unfold among compare at *
  split at before
  · next down =>
    rw [if_pos down] at after ⊢
    rw [← compareValues_swap] at before after ⊢
    exact compareValues_trans (kin t s r) after before
  · next up =>
    rw [if_neg up] at after ⊢
    exact compareValues_trans (kin r s t) before after

theorem compareAll_cons (key : SortKey) (keys : List SortKey) (r s : Record) :
    compareAll (key :: keys) r s = (key.compare r s).then (compareAll keys r s) := by
  have folded (order : Ordering) :
      keys.foldl (fun order key => order.then (key.compare r s)) order =
        order.then (compareAll keys r s) := by
    unfold compareAll
    induction keys generalizing order with
    | nil => cases order <;> rfl
    | cons other keys ih =>
      rw [List.foldl_cons, List.foldl_cons, ih, ih (Ordering.eq.then _)]
      cases order <;> rfl
  exact folded _

theorem compareAll_swap (keys : List SortKey) (r s : Record) :
    compareAll keys s r = (compareAll keys r s).swap := by
  induction keys with
  | nil => rfl
  | cons key keys ih =>
    rw [compareAll_cons, compareAll_cons, compare_swap, ih, Ordering.swap_then]

theorem compareAll_single (key : SortKey) (r s : Record) :
    compareAll [key] r s = key.compare r s :=
  (compareAll_cons key [] r s).trans Ordering.then_eq

theorem transCmp_allAmong (unmixed : ∀ key ∈ keys, ¬ key.Mixes records) :
    Std.TransCmp (allAmong keys records) := by
  induction keys with
  | nil => exact @Std.TransCmp.mk _ _ ⟨rfl⟩ fun _ _ => rfl
  | cons key keys ih =>
    have first := transCmp_among (unmixed key List.mem_cons_self)
    have rest := ih fun other member => unmixed other (List.mem_cons_of_mem key member)
    have lexicographic : allAmong (key :: keys) records =
        compareLex (key.among records) (allAmong keys records) := by
      funext r s
      exact compareAll_cons key keys r.1 s.1
    rw [lexicographic]
    infer_instance

/-- Among the records, what comes after no record that comes after no third does not come after it. -/
def OrdersAll (keys : List SortKey) (records : List Record) : Prop :=
  ∀ r ∈ records, ∀ s ∈ records, ∀ t ∈ records, compareAll keys r s ≠ .gt →
    compareAll keys s t ≠ .gt → compareAll keys r t ≠ .gt

instance (keys : List SortKey) (records : List Record) : Decidable (OrdersAll keys records) :=
  inferInstanceAs (Decidable (∀ r ∈ records, ∀ s ∈ records, ∀ t ∈ records,
    compareAll keys r s ≠ .gt → compareAll keys s t ≠ .gt → compareAll keys r t ≠ .gt))

theorem ordersAll_of_unmixed (unmixed : ∀ key ∈ keys, ¬ key.Mixes records) :
    OrdersAll keys records := by
  have := transCmp_allAmong unmixed
  intro r member s member' t member'' before after
  have first : (allAmong keys records ⟨r, member⟩ ⟨s, member'⟩).isLE = true :=
    Ordering.isLE_iff_ne_gt.mpr before
  have second : (allAmong keys records ⟨s, member'⟩ ⟨t, member''⟩).isLE = true :=
    Ordering.isLE_iff_ne_gt.mpr after
  have third : (allAmong keys records ⟨r, member⟩ ⟨t, member''⟩).isLE = true :=
    Std.TransCmp.isLE_trans first second
  exact Ordering.isLE_iff_ne_gt.mp third

theorem compareAll_ne_gt_iff {r s : Record} : compareAll keys s r ≠ .gt ↔ compareAll keys r s ≠ .lt := by
  rw [compareAll_swap]
  cases compareAll keys r s <;> decide

end SortKey

namespace Record

open SortKey

variable {keys : List SortKey} {records : List Record}

theorem not_before_trans (orders : OrdersAll keys records) {r s t : Record}
    (inside : r ∈ records) (inside' : s ∈ records) (inside'' : t ∈ records)
    (behind : compareAll keys r s ≠ .lt) (behind' : compareAll keys s t ≠ .lt) :
    compareAll keys r t ≠ .lt :=
  compareAll_ne_gt_iff.mp (orders t inside'' s inside' r inside (compareAll_ne_gt_iff.mpr behind')
    (compareAll_ne_gt_iff.mpr behind))

theorem not_before_of_before {r s : Record} (before : compareAll keys r s = .lt) :
    compareAll keys s r ≠ .lt := by
  rw [compareAll_swap, before]
  decide

theorem mem_insertBehind {r s : Record} {sorted : List Record} :
    s ∈ insertBehind keys r sorted ↔ s = r ∨ s ∈ sorted := by
  rw [(perm_insertBehind keys r sorted).mem_iff, List.mem_cons]

theorem sorted_insertBehind (orders : OrdersAll keys records) {r : Record}
    {sorted : List Record} (inside : r ∈ records) (all : ∀ s ∈ sorted, s ∈ records)
    (ordered : sorted.Pairwise fun later earlier => compareAll keys later earlier ≠ .lt) :
    (insertBehind keys r sorted).Pairwise
      fun later earlier => compareAll keys later earlier ≠ .lt := by
  induction sorted with
  | nil => exact List.pairwise_singleton _ _
  | cons last before ih =>
    have inside' := all last List.mem_cons_self
    have rest : ∀ s ∈ before, s ∈ records := fun s member => all s (List.mem_cons_of_mem last member)
    have behind := List.pairwise_cons.mp ordered
    rw [insertBehind]
    split
    · next less =>
      refine List.pairwise_cons.mpr ⟨fun s member => ?_, ih rest behind.2⟩
      rcases mem_insertBehind.mp member with rfl | member
      · exact not_before_of_before (eq_of_beq less)
      · exact behind.1 s member
    · next not_less =>
      have here : compareAll keys r last ≠ .lt := fun less => not_less (beq_iff_eq.mpr less)
      refine List.pairwise_cons.mpr ⟨fun s member => ?_, ordered⟩
      rcases List.mem_cons.mp member with rfl | member
      · exact here
      · exact not_before_trans orders inside inside' (rest s member) here (behind.1 s member)

theorem sorted_foldl (orders : OrdersAll keys records) {rest sorted : List Record}
    (inside : ∀ r ∈ rest, r ∈ records) (all : ∀ s ∈ sorted, s ∈ records)
    (ordered : sorted.Pairwise fun later earlier => compareAll keys later earlier ≠ .lt) :
    (rest.foldl (fun sorted r => insertBehind keys r sorted) sorted).Pairwise
      fun later earlier => compareAll keys later earlier ≠ .lt := by
  induction rest generalizing sorted with
  | nil => exact ordered
  | cons r rest ih =>
    have here := inside r List.mem_cons_self
    refine ih (fun s member => inside s (List.mem_cons_of_mem r member)) (fun s member => ?_)
      (sorted_insertBehind orders here all ordered)
    rcases mem_insertBehind.mp member with rfl | member
    · exact here
    · exact all s member

theorem sorted_sortByKeys (orders : OrdersAll keys records) :
    (sortByKeys keys records).Pairwise fun earlier later => compareAll keys earlier later ≠ .gt :=
  (List.pairwise_reverse.mpr
    (sorted_foldl orders (fun _ member => member) (fun _ member => absurd member List.not_mem_nil)
      List.Pairwise.nil)).imp compareAll_ne_gt_iff.mpr

/-- A record that comes before none of a run is inserted without a look at what is before the run. -/
theorem insertBehind_append {r : Record} {front : List Record} (back : List Record)
    (above : ∀ s ∈ front, compareAll keys r s ≠ .lt) :
    insertBehind keys r (back ++ front) = insertBehind keys r back ++ front := by
  induction back with
  | nil =>
    cases front with
    | nil => rfl
    | cons last before =>
      have here : ¬ (compareAll keys r last == .lt) = true := fun less =>
        above last List.mem_cons_self (eq_of_beq less)
      exact if_neg here
  | cons last back ih =>
    rw [List.cons_append, insertBehind, insertBehind, ih]
    split <;> rfl

theorem foldl_insertBehind_append {rest front : List Record} (back : List Record)
    (above : ∀ r ∈ rest, ∀ s ∈ front, compareAll keys r s ≠ .lt) :
    rest.foldl (fun sorted r => insertBehind keys r sorted) (back ++ front) =
      rest.foldl (fun sorted r => insertBehind keys r sorted) back ++ front := by
  induction rest generalizing back with
  | nil => rfl
  | cons r rest ih =>
    rw [List.foldl_cons, List.foldl_cons, insertBehind_append back (above r List.mem_cons_self)]
    exact ih _ fun s member => above s (List.mem_cons_of_mem r member)

theorem sortByKeys_append {front rest : List Record}
    (above : ∀ r ∈ rest, ∀ s ∈ front, compareAll keys r s ≠ .lt) :
    sortByKeys keys (front ++ rest) = sortByKeys keys front ++ sortByKeys keys rest := by
  let place := fun sorted r => insertBehind keys r sorted
  have above' : ∀ r ∈ rest, ∀ s ∈ front.foldl place [], compareAll keys r s ≠ .lt := by
    intro r member s member'
    refine above r member s ((perm_sortByKeys keys front).mem_iff.mp ?_)
    exact List.mem_reverse.mpr member'
  calc sortByKeys keys (front ++ rest)
    _ = (rest.foldl place ([] ++ front.foldl place [])).reverse := by
      rw [sortByKeys, List.foldl_append, List.nil_append]
    _ = (rest.foldl place [] ++ front.foldl place []).reverse := by
      rw [foldl_insertBehind_append [] above']
    _ = sortByKeys keys front ++ sortByKeys keys rest := by
      rw [List.reverse_append]
      rfl

/-- The first of all sorted records are the first records sorted, if no later one comes before them. -/
theorem take_sortByKeys {n : Nat}
    (above : ∀ r ∈ records.drop n, ∀ s ∈ records.take n, compareAll keys r s ≠ .lt) :
    (sortByKeys keys records).take n = sortByKeys keys (records.take n) := by
  have runs := sortByKeys_append above
  rw [List.take_append_drop] at runs
  have first := (perm_sortByKeys keys (records.take n)).length_eq
  have rest := (perm_sortByKeys keys (records.drop n)).length_eq
  rw [List.length_take] at first
  rw [List.length_drop] at rest
  rw [runs]
  by_cases enough : n ≤ records.length
  · rw [List.take_append_of_le_length (by omega), List.take_of_length_le (by omega)]
  · have none_left : sortByKeys keys (records.drop n) = [] := List.eq_nil_of_length_eq_zero (by omega)
    rw [none_left, List.append_nil, List.take_of_length_le (by omega)]

/-- If the first of all sorted records are among the first records, no later record comes before one
of those. -/
theorem above_of_take_sortByKeys {n : Nat} (orders : ∀ key ∈ keys, key.Orders records)
    (distinct : records.Nodup)
    (same : ∀ r, r ∈ (sortByKeys keys records).take n ↔ r ∈ records.take n) :
    ∀ r ∈ records.drop n, ∀ s ∈ records.take n, compareAll keys r s ≠ .lt := by
  intro r member s member'
  have sorted := sorted_sortByKeys (ordersAll_of_unmixed fun key member => (orders key member).not_mixes)
  rw [← List.take_append_drop n (sortByKeys keys records)] at sorted
  have apart : r ∉ records.take n := fun early =>
    (List.nodup_append.mp ((List.take_append_drop n records).symm ▸ distinct)).2.2 r early r member rfl
  have somewhere : r ∈ sortByKeys keys records :=
    (perm_sortByKeys keys records).mem_iff.mpr (List.mem_of_mem_drop member)
  rw [← List.take_append_drop n (sortByKeys keys records)] at somewhere
  have late : r ∈ (sortByKeys keys records).drop n :=
    (List.mem_append.mp somewhere).resolve_left fun early => apart ((same r).mp early)
  exact compareAll_ne_gt_iff.mp ((List.pairwise_append.mp sorted).2.2 s ((same s).mpr member') r late)

end Record

end StoreGateway

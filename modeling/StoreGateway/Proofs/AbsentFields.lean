import StoreGateway.Proofs.Sorting

/-!
Where sorting by one field places the records that lack it. Main statement: they stay in order, behind
the records that have it in ascending order and before them in descending order.
-/

namespace StoreGateway

namespace Record

open SortKey

variable {keys : List SortKey} {records : List Record}

theorem insertBehind_before {r : Record} {back : List Record} (front : List Record)
    (below : ∀ s ∈ back, compareAll keys r s = .lt) :
    insertBehind keys r (back ++ front) = back ++ insertBehind keys r front := by
  induction back with
  | nil => rfl
  | cons last back ih =>
    have less : (compareAll keys r last == .lt) = true :=
      beq_iff_eq.mpr (below last List.mem_cons_self)
    rw [List.cons_append, insertBehind, if_pos less,
      ih fun s member => below s (List.mem_cons_of_mem last member), List.cons_append]

theorem sortByKeys_classes {early : Record → Bool} (before : ∀ r s, early r = true →
    early s = false → compareAll keys r s = .lt) (records : List Record) :
    sortByKeys keys records = sortByKeys keys (records.filter early) ++
      sortByKeys keys (records.filter fun r => !early r) := by
  let place := fun sorted r => insertBehind keys r sorted
  -- The list in reverse has the later class in front.
  have placed (back front : List Record) (late : ∀ s ∈ back, early s = false)
      (first : ∀ s ∈ front, early s = true) : records.foldl place (back ++ front) =
        (records.filter fun r => !early r).foldl place back ++
          (records.filter early).foldl place front := by
    induction records generalizing back front with
    | nil => rfl
    | cons r records ih =>
      rw [List.foldl_cons]
      cases is : early r with
      | true =>
        have here : place (back ++ front) r = back ++ place front r :=
          insertBehind_before front fun s member => before r s is (late s member)
        have inside : ∀ s ∈ place front r, early s = true := by
          intro s member
          rcases mem_insertBehind.mp member with rfl | member
          · exact is
          · exact first s member
        rw [here, ih back (place front r) late inside]
        simp [is]
      | false =>
        have here : place (back ++ front) r = place back r ++ front :=
          insertBehind_append back fun s member => not_before_of_before (before s r (first s member) is)
        have inside : ∀ s ∈ place back r, early s = false := by
          intro s member
          rcases mem_insertBehind.mp member with rfl | member
          · exact is
          · exact late s member
        rw [here, ih (place back r) front inside first]
        simp [is]
  have whole := placed [] [] (fun _ member => absurd member List.not_mem_nil)
    fun _ member => absurd member List.not_mem_nil
  rw [List.nil_append] at whole
  rw [sortByKeys, whole, List.reverse_append]
  rfl

theorem sortByKeys_even (even : ∀ r ∈ records, ∀ s ∈ records, compareAll keys r s = .eq) :
    sortByKeys keys records = records := by
  have placed (rest sorted : List Record) (inside : ∀ r ∈ rest, r ∈ records)
      (inside' : ∀ s ∈ sorted, s ∈ records) :
      rest.foldl (fun sorted r => insertBehind keys r sorted) sorted = rest.reverse ++ sorted := by
    induction rest generalizing sorted with
    | nil => rfl
    | cons r rest ih =>
      have member := inside r List.mem_cons_self
      have here : insertBehind keys r ([] ++ sorted) = insertBehind keys r [] ++ sorted :=
        insertBehind_append [] fun s member' => by
          rw [even r member s (inside' s member')]
          decide
      have within : ∀ s ∈ r :: sorted, s ∈ records := by
        intro s member'
        rcases List.mem_cons.mp member' with rfl | member'
        · exact member
        · exact inside' s member'
      rw [List.foldl_cons, show insertBehind keys r sorted = r :: sorted from here,
        ih (r :: sorted) (fun s member' => inside s (List.mem_cons_of_mem r member')) within,
        List.reverse_cons, List.append_assoc]
      rfl
  rw [sortByKeys, placed records [] (fun _ member => member)
    (fun _ member => absurd member List.not_mem_nil), List.append_nil, List.reverse_reverse]

end Record

namespace SortKey

variable {key : SortKey} {records : List Record} {r s : Record}

def isIn (key : SortKey) (r : Record) : Bool := (r.get? key.field).isSome

def having (key : SortKey) (records : List Record) : List Record := records.filter key.isIn

def lacking (key : SortKey) (records : List Record) : List Record :=
  records.filter fun r => !key.isIn r

/-- No record that has the field is behind one that lacks it. -/
def AbsentLast (key : SortKey) (records : List Record) : Prop :=
  records.Pairwise fun earlier later => key.isIn later = true → key.isIn earlier = true

theorem mem_having : r ∈ key.having records ↔ r ∈ records ∧ key.isIn r = true := List.mem_filter

theorem mem_lacking : r ∈ key.lacking records ↔ r ∈ records ∧ key.isIn r = false := by
  rw [lacking, List.mem_filter, Bool.not_eq_true']

theorem compare_of_absent (has : key.isIn r = true) (lacks : key.isIn s = false) :
    key.compare r s = if key.descending then .gt else .lt := by
  obtain ⟨v, here⟩ := Option.isSome_iff_exists.mp has
  have there : s.get? key.field = none := Option.isNone_iff_eq_none.mp
    (Option.isSome_eq_false_iff.mp lacks)
  rw [compare, here, there]
  rfl

theorem compare_absent (lacks : key.isIn r = false) (lacks' : key.isIn s = false) :
    key.compare r s = .eq := by
  have here : r.get? key.field = none := Option.isNone_iff_eq_none.mp
    (Option.isSome_eq_false_iff.mp lacks)
  have there : s.get? key.field = none := Option.isNone_iff_eq_none.mp
    (Option.isSome_eq_false_iff.mp lacks')
  rw [compare, here, there]
  cases key.descending <;> rfl

end SortKey

namespace Record

open SortKey

theorem sortByKeys_lacking (key : SortKey) (records : List Record) :
    sortByKeys [key] (key.lacking records) = key.lacking records :=
  sortByKeys_even fun r member s member' => by
    rw [compareAll_single, compare_absent (mem_lacking.mp member).2 (mem_lacking.mp member').2]

theorem sortByKeys_single (key : SortKey) (records : List Record) : sortByKeys [key] records =
    if key.descending then key.lacking records ++ sortByKeys [key] (key.having records)
      else sortByKeys [key] (key.having records) ++ key.lacking records := by
  cases down : key.descending with
  | false =>
    have before (r s : Record) (has : key.isIn r = true) (lacks : key.isIn s = false) :
        compareAll [key] r s = .lt := by
      rw [compareAll_single, compare_of_absent has lacks, down]
      rfl
    have classes := sortByKeys_classes before records
    change _ = sortByKeys [key] (key.having records) ++ sortByKeys [key] (key.lacking records)
      at classes
    rwa [sortByKeys_lacking] at classes
  | true =>
    have before (r s : Record) (lacks : (!key.isIn r) = true) (has : (!key.isIn s) = false) :
        compareAll [key] r s = .lt := by
      rw [Bool.not_eq_true'] at lacks
      rw [Bool.not_eq_false'] at has
      rw [compareAll_single, compare_swap, compare_of_absent has lacks, down]
      rfl
    have classes := sortByKeys_classes before records
    simp only [Bool.not_not] at classes
    change _ = sortByKeys [key] (key.lacking records) ++ sortByKeys [key] (key.having records)
      at classes
    rwa [sortByKeys_lacking] at classes

theorem absentLast_sortByKeys_iff (key : SortKey) (records : List Record) :
    key.AbsentLast (sortByKeys [key] records) ↔
      key.descending = false ∨ key.having records = [] ∨ key.lacking records = [] := by
  have has {r : Record} (member : r ∈ sortByKeys [key] (key.having records)) :
      key.isIn r = true := (mem_having.mp ((perm_sortByKeys _ _).mem_iff.mp member)).2
  have inside {r : Record} (member : r ∈ sortByKeys [key] records) : r ∈ records :=
    (perm_sortByKeys [key] records).mem_iff.mp member
  constructor
  · intro last
    cases down : key.descending with
    | false => exact .inl rfl
    | true =>
      rw [sortByKeys_single, down] at last
      -- downwards the records that lack the field come first, so one side has to be empty
      have across := (List.pairwise_append.mp last).2.2
      cases present : key.having records with
      | nil => exact .inr (.inl rfl)
      | cons r more =>
        cases absent : key.lacking records with
        | nil => exact .inr (.inr rfl)
        | cons s more' =>
          have member : r ∈ sortByKeys [key] (key.having records) := by
            rw [(perm_sortByKeys _ _).mem_iff, present]
            exact List.mem_cons_self
          have member' : s ∈ key.lacking records := absent ▸ List.mem_cons_self
          have here := across s member' r member (has member)
          rw [(mem_lacking.mp member').2] at here
          cases here
  · rintro (up | none | all)
    · rw [sortByKeys_single, up]
      refine List.pairwise_append.mpr ⟨?_, ?_, fun r member _ _ _ => has member⟩
      · exact List.pairwise_of_forall_mem_list fun r member _ _ _ => has member
      · refine List.pairwise_of_forall_mem_list fun _ _ s member here => ?_
        rw [(mem_lacking.mp member).2] at here
        cases here
    · refine List.pairwise_of_forall_mem_list fun _ _ s member here => ?_
      have found := mem_having.mpr ⟨inside member, here⟩
      rw [none] at found
      cases found
    · refine List.pairwise_of_forall_mem_list fun r member _ _ _ => ?_
      cases is : key.isIn r with
      | true => rfl
      | false =>
        have missed := mem_lacking.mpr ⟨inside member, is⟩
        rw [all] at missed
        cases missed

end Record

open SortKey

/-- Sorted by one key that finds no values of several kinds, records are in its order, and those that
lack its field keep theirs: behind the others in ascending order and before them in descending order.
So they come last exactly if the order ascends, or all records have the field, or none has. -/
theorem absent_fields_placed {qualifier : Option String} {orderBy : String} {key : SortKey}
    (one : SortKey.ofText qualifier orderBy = [key]) {records : List Record}
    (unmixed : ¬ key.Mixes records) :
    let sorted := Record.sortBy orderBy qualifier records
    (sorted.Perm records ∧
      sorted.Pairwise fun earlier later => key.compare earlier later ≠ .gt) ∧
    (sorted = if key.descending
      then key.lacking records ++ Record.sortByKeys [key] (key.having records)
      else Record.sortByKeys [key] (key.having records) ++ key.lacking records) ∧
    (key.AbsentLast sorted ↔
      key.descending = false ∨ key.having records = [] ∨ key.lacking records = []) := by
  intro sorted
  have single : sorted = Record.sortByKeys [key] records := by
    change Record.sortByKeys (SortKey.ofText qualifier orderBy) records = _
    rw [one]
  have orders : OrdersAll [key] records := ordersAll_of_unmixed fun other member => by
    rwa [List.mem_singleton.mp member]
  have inOrder := Record.sorted_sortByKeys orders
  simp only [compareAll_single] at inOrder
  rw [single]
  exact ⟨⟨Record.perm_sortByKeys [key] records, inOrder⟩, Record.sortByKeys_single key records,
    Record.absentLast_sortByKeys_iff key records⟩

/-- In descending order the record without the field comes first, though it is behind the other in the
list. -/
theorem absent_fields_placed_of_descending :
    let key : SortKey := ⟨"v", true⟩
    let present : Record := [("id", .string "b"), ("v", .int 1)]
    let absent : Record := [("id", .string "a")]
    SortKey.ofText none "v desc" = [key] ∧
      Record.sortBy "v desc" none [present, absent] = [absent, present] ∧
      ¬ key.AbsentLast (Record.sortBy "v desc" none [present, absent]) := by
  intro key present absent
  have one : SortKey.ofText none "v desc" = [key] := by decide +kernel
  have unmixed : ¬ key.Mixes [present, absent] := by decide +kernel
  obtain ⟨-, placed, last⟩ := absent_fields_placed one unmixed
  refine ⟨one, placed, fun apart => ?_⟩
  rcases last.mp apart with up | none | all
  · cases up
  · cases none
  · cases all

/-- The record without the field stays first, and is to come last. -/
theorem absent_field_first :
    let present : Record := [("id", .string "b"), ("v", .int 1)]
    let absent : Record := [("id", .string "a")]
    SortKey.ofText none "v desc" = [⟨"v", true⟩] ∧
      Record.sortBy "v desc" none [absent, present] = [absent, present] ∧
      absent.get? "v" = none ∧ present.get? "v" = some (.int 1) := by
  intro present absent
  have one : SortKey.ofText none "v desc" = [⟨"v", true⟩] := by decide +kernel
  refine ⟨one, ?_, rfl, rfl⟩
  change Record.sortByKeys (SortKey.ofText none "v desc") [absent, present] = _
  rw [one]
  rfl

end StoreGateway

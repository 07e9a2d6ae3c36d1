import StoreGateway.Json.Value

/-! Looking up what lists of names and values have for a name, and the members of records. -/

namespace StoreGateway

theorem lookup_cons_eq_ite {α β : Type} [BEq α] [LawfulBEq α] [DecidableEq α] (k name : α) (v : β)
    (rest : List (α × β)) :
    ((name, v) :: rest).lookup k = if k = name then some v else rest.lookup k := by
  by_cases same : k = name
  · rw [if_pos same, same, List.lookup_cons_self]
  · rw [if_neg same, List.lookup_cons, beq_false_of_ne same]

theorem mem_of_lookup {α β : Type} [BEq α] [LawfulBEq α] {k : α} {v : β} {entries : List (α × β)}
    (found : entries.lookup k = some v) : (k, v) ∈ entries := by
  obtain ⟨front, back, rfl, -⟩ := List.lookup_eq_some_iff.mp found
  exact List.mem_append_right front List.mem_cons_self

theorem ok_of_toOption {ε α : Type} {x : Except ε α} {a : α} (there : x.toOption = some a) :
    x = .ok a := by
  cases x with
  | ok b =>
    cases there
    rfl
  | error e => cases there

namespace Record

theorem get?_insert (r : Record) (name : String) (v : Value) (other : String) :
    (r.insert name v).get? other = if other = name then some v else r.get? other := by
  induction r with
  | nil => exact lookup_cons_eq_ite other name v []
  | cons member r ih =>
    obtain ⟨first, w⟩ := member
    unfold get? at ih ⊢
    rw [insert, lookup_cons_eq_ite other first w r]
    by_cases here : name = first
    · rw [if_pos here, lookup_cons_eq_ite, here]
      split <;> rfl
    · rw [if_neg here]
      by_cases before : name < first
      · rw [if_pos before, lookup_cons_eq_ite, lookup_cons_eq_ite]
      · rw [if_neg before, lookup_cons_eq_ite, ih]
        by_cases same : other = name
        · rw [if_pos same, same, if_neg here, if_pos rfl]
        · rw [if_neg same, if_neg same]

theorem get?_extend_of_not_mem (r : Record) (members : List (String × Value)) (name : String)
    (absent : ∀ m ∈ members, m.1 ≠ name) : (extend r members).get? name = r.get? name := by
  induction members generalizing r with
  | nil => rfl
  | cons m members ih =>
    have rest := ih (r.insert m.1 m.2) fun n inside => absent n (List.mem_cons_of_mem m inside)
    change (extend (r.insert m.1 m.2) members).get? name = r.get? name
    rw [rest, get?_insert, if_neg (Ne.symm (absent m List.mem_cons_self))]

theorem get?_extend_of_mem (r : Record) (members : List (String × Value))
    (distinct : (members.map Prod.fst).Nodup) (m : String × Value) (inside : m ∈ members) :
    (extend r members).get? m.1 = some m.2 := by
  induction members generalizing r with
  | nil => cases inside
  | cons n members ih =>
    rw [List.map_cons, List.nodup_cons] at distinct
    change (extend (r.insert n.1 n.2) members).get? m.1 = some m.2
    rcases List.mem_cons.mp inside with rfl | inside
    · have absent : ∀ k ∈ members, k.1 ≠ m.1 := by
        intro k member same
        exact distinct.1 (same ▸ List.mem_map_of_mem member)
      rw [get?_extend_of_not_mem _ _ _ absent, get?_insert, if_pos rfl]
    · exact ih (r.insert n.1 n.2) distinct.2 inside

theorem get?_ofMembers_of_mem {members : List (String × Value)}
    (distinct : (members.map Prod.fst).Nodup) {m : String × Value} (inside : m ∈ members) :
    (ofMembers members).get? m.1 = some m.2 :=
  get?_extend_of_mem [] members distinct m inside

theorem get?_ofMembers_of_not_mem {members : List (String × Value)} {name : String}
    (absent : ∀ m ∈ members, m.1 ≠ name) : (ofMembers members).get? name = none :=
  get?_extend_of_not_mem [] members name absent

end Record

end StoreGateway

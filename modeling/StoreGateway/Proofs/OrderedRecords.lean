import StoreGateway.Json.Number
import StoreGateway.Json.Value

/-! Records in the order of their names, and records that reading back leaves as they are. -/

namespace StoreGateway

namespace Record

def Ordered (r : Record) : Prop := r.Pairwise fun a b => a.1 < b.1

theorem Ordered.filter {r : Record} (ordered : r.Ordered) (keep : String × Value → Bool) :
    Ordered (r.filter keep) :=
  List.Pairwise.filter keep ordered

theorem Ordered.nodup {r : Record} (ordered : r.Ordered) : r.Nodup := by
  refine List.Pairwise.imp ?_ ordered
  intro a b less same
  rw [same] at less
  exact String.lt_irrefl b.1 less

theorem Ordered.ext {r r' : Record} (ordered : r.Ordered) (ordered' : r'.Ordered)
    (same : ∀ m, m ∈ r ↔ m ∈ r') : r = r' := by
  have permuted : r.Perm r' :=
    (List.perm_ext_iff_of_nodup ordered.nodup ordered'.nodup).mpr same
  refine permuted.eq_of_pairwise (fun a b _ _ less more => ?_) ordered ordered'
  exact absurd more (String.lt_asymm less)

theorem lt_of_not {a b : String} (different : a ≠ b) (not_before : ¬ a < b) : b < a := by
  by_cases before : b < a
  · exact before
  · exact absurd (String.le_antisymm before not_before) different

theorem mem_insert {r : Record} {name : String} {v : Value} {m : String × Value} :
    m ∈ r.insert name v → m = (name, v) ∨ m ∈ r := by
  induction r with
  | nil => intro member; exact .inl (List.mem_singleton.mp member)
  | cons first rest ih =>
    obtain ⟨other, w⟩ := first
    rw [Record.insert]
    intro member
    split at member
    · rcases List.mem_cons.mp member with same | member
      · exact .inl same
      · exact .inr (List.mem_cons_of_mem _ member)
    · split at member
      · exact List.mem_cons.mp member
      · rcases List.mem_cons.mp member with same | member
        · rw [same]
          exact .inr List.mem_cons_self
        · rcases ih member with same | inside
          · exact .inl same
          · exact .inr (List.mem_cons_of_mem _ inside)

theorem Ordered.insert {r : Record} (ordered : r.Ordered) (name : String) (v : Value) :
    (r.insert name v).Ordered := by
  induction r with
  | nil => exact List.pairwise_singleton _ _
  | cons first rest ih =>
    obtain ⟨other, w⟩ := first
    have split := List.pairwise_cons.mp ordered
    rw [Record.insert]
    by_cases same : name = other
    · rw [if_pos same, same]
      exact List.pairwise_cons.mpr split
    · rw [if_neg same]
      by_cases before : name < other
      · rw [if_pos before]
        refine List.pairwise_cons.mpr ⟨fun m member => ?_, ordered⟩
        rcases List.mem_cons.mp member with here | member
        · rw [here]
          exact before
        · exact String.lt_trans before (split.1 m member)
      · rw [if_neg before]
        refine List.pairwise_cons.mpr ⟨fun m member => ?_, ih split.2⟩
        rcases mem_insert member with here | member
        · rw [here]
          exact lt_of_not same before
        · exact split.1 m member

theorem Ordered.mem_insert_iff {r : Record} (ordered : r.Ordered) {name : String} {v : Value}
    {m : String × Value} : m ∈ r.insert name v ↔ m = (name, v) ∨ (m ∈ r ∧ m.1 ≠ name) := by
  induction r with
  | nil => simp [Record.insert]
  | cons first rest ih =>
    obtain ⟨other, w⟩ := first
    have split := List.pairwise_cons.mp ordered
    rw [Record.insert]
    by_cases same : name = other
    · have different : m ∈ rest → m.1 ≠ name := by
        intro member equal
        have after := split.1 m member
        rw [equal, same] at after
        exact String.lt_irrefl other after
      rw [if_pos same, List.mem_cons, List.mem_cons]
      grind
    · rw [if_neg same]
      by_cases before : name < other
      · have different : m ∈ (other, w) :: rest → m.1 ≠ name := by
          intro member equal
          rcases List.mem_cons.mp member with here | member
          · rw [here] at equal
            exact same equal.symm
          · have after := String.lt_trans before (split.1 m member)
            rw [equal] at after
            exact String.lt_irrefl name after
        rw [if_pos before, List.mem_cons]
        grind
      · rw [if_neg before, List.mem_cons, List.mem_cons, ih split.2]
        grind

theorem Ordered.extend {r : Record} (ordered : r.Ordered) (more : Record) :
    (r.extend more).Ordered := by
  induction more generalizing r with
  | nil => exact ordered
  | cons m more ih => exact ih (ordered.insert m.1 m.2)

theorem Ordered.mem_extend_iff {r more : Record} (ordered : r.Ordered)
    (distinct : (more.map Prod.fst).Nodup) {m : String × Value} :
    m ∈ r.extend more ↔ m ∈ more ∨ (m ∈ r ∧ m.1 ∉ more.map Prod.fst) := by
  induction more generalizing r with
  | nil => simp [Record.extend]
  | cons first more ih =>
    rw [List.map_cons, List.nodup_cons] at distinct
    have rest := ih (ordered.insert first.1 first.2) distinct.2
    have absent : m = first → m.1 ∉ more.map Prod.fst := by
      intro same
      rw [same]
      exact distinct.1
    change m ∈ Record.extend (r.insert first.1 first.2) more ↔ _
    rw [rest, ordered.mem_insert_iff, List.map_cons]
    grind

theorem Ordered.names_nodup {r : Record} (ordered : r.Ordered) : (r.map Prod.fst).Nodup := by
  refine List.pairwise_map.mpr (List.Pairwise.imp ?_ ordered)
  intro a b less same
  rw [same] at less
  exact String.lt_irrefl b.1 less

theorem filter_extend {base q : Record} {keep : String × Value → Bool} (ordered : base.Ordered)
    (ordered' : q.Ordered) (none : ∀ m ∈ base, keep m = false) (all : ∀ m ∈ q, keep m = true) :
    (Record.extend base q).filter keep = q := by
  refine ((ordered.extend q).filter keep).ext ordered' fun m => ?_
  rw [List.mem_filter, ordered.mem_extend_iff ordered'.names_nodup]
  constructor
  · rintro ⟨member | ⟨member, -⟩, kept⟩
    · exact member
    · rw [none m member] at kept
      cases kept
  · intro member
    exact ⟨.inl member, all m member⟩

theorem mem_extend {r more : Record} {m : String × Value} (member : m ∈ r.extend more) :
    m ∈ r ∨ m ∈ more := by
  induction more generalizing r with
  | nil => exact .inl member
  | cons first more ih =>
    rcases ih member with inside | inside
    · rcases mem_insert inside with same | inside
      · rw [same]
        exact .inr List.mem_cons_self
      · exact .inl inside
    · exact .inr (List.mem_cons_of_mem _ inside)

end Record

/-- A value that can be read back from the text of a record, which changes it at most once. -/
def Value.Settled (v : Value) : Prop :=
  ∃ w, Json.rereadValue (Json.maxDepth - 1) v = .ok w ∧
    Json.rereadValue (Json.maxDepth - 1) w = .ok w

namespace Record

def Settled (r : Record) : Prop := ∀ m ∈ r, m.2.Settled

theorem settled_string {name text : String} {m : String × Value} (same : m = (name, .string text)) :
    m.2.Settled := by
  rw [same]
  exact ⟨.string text, rfl, rfl⟩

theorem Settled.reread {r : Record} (settled : r.Settled) :
    ∃ q : Record, Json.rereadRecord r = .ok q ∧ Json.rereadRecord q = .ok q ∧ q.Settled ∧
      q.map Prod.fst = r.map Prod.fst := by
  induction r with
  | nil => exact ⟨[], rfl, rfl, nofun, rfl⟩
  | cons first r ih =>
    obtain ⟨name, v⟩ := first
    obtain ⟨w, once, again⟩ := settled (name, v) List.mem_cons_self
    obtain ⟨q, all, same, settled', names⟩ := ih fun m member =>
      settled m (List.mem_cons_of_mem _ member)
    refine ⟨(name, w) :: q, ?_, ?_, ?_, ?_⟩
    · rw [Json.rereadRecord] at all ⊢
      rw [Json.rereadMembers, once, all]
      rfl
    · rw [Json.rereadRecord] at same ⊢
      rw [Json.rereadMembers, again, same]
      rfl
    · intro m member
      rcases List.mem_cons.mp member with here | member
      · rw [here]
        exact ⟨w, again, again⟩
      · exact settled' m member
    · rw [List.map_cons, List.map_cons, names]

theorem ordered_of_names {r q : Record} (ordered : r.Ordered)
    (names : q.map Prod.fst = r.map Prod.fst) : q.Ordered := by
  have sorted : (r.map Prod.fst).Pairwise (· < ·) := List.pairwise_map.mpr ordered
  rw [← names] at sorted
  exact List.pairwise_map.mp sorted

theorem all_of_names {r q : Record} {P : String → Prop} (all : ∀ m ∈ r, P m.1)
    (names : q.map Prod.fst = r.map Prod.fst) : ∀ m ∈ q, P m.1 := by
  intro m member
  have inside : m.1 ∈ r.map Prod.fst := names ▸ List.mem_map_of_mem member
  obtain ⟨m', member', same⟩ := List.mem_map.mp inside
  rw [← same]
  exact all m' member'

/-- Records as a store keeps them: in order, with names of its own choosing only, and settled. -/
structure Stored (own : String → Bool) (q : Record) : Prop where
  ordered : q.Ordered
  own : ∀ m ∈ q, own m.1 = true
  settled : q.Settled

/-- Records as a store shows them, which reading back leaves as they are. -/
structure Shown (own : String → Bool) (q : Record) : Prop extends Stored own q where
  same : Json.rereadRecord q = .ok q

variable {own : String → Bool} {q more : Record}

theorem stored_filter (ordered : more.Ordered) (settled : more.Settled) :
    Stored own (more.filter fun m => own m.1) := by
  refine ⟨ordered.filter _, fun m member => ?_, fun m member => ?_⟩
  · exact (List.mem_filter.mp member).2
  · exact settled m (List.mem_filter.mp member).1

theorem Stored.extend (first : Stored own q) (second : Stored own more) :
    Stored own (q.extend more) := by
  refine ⟨first.ordered.extend more, fun m member => ?_, fun m member => ?_⟩
  · rcases mem_extend member with member | member
    · exact first.own m member
    · exact second.own m member
  · rcases mem_extend member with member | member
    · exact first.settled m member
    · exact second.settled m member

theorem Stored.reread (stored : Stored own q) :
    ∃ q', Json.rereadRecord q = .ok q' ∧ Shown own q' := by
  obtain ⟨q', once, again, settled, names⟩ := stored.settled.reread
  exact ⟨q', once, ⟨ordered_of_names stored.ordered names,
    all_of_names (P := fun name => own name = true) stored.own names, settled⟩, again⟩

end Record

end StoreGateway

import Mathlib.Data.List.Nodup
import StoreGateway.Proofs.SingleAnswers
import StoreGateway.Proofs.Sorting

/-!
Reads from a table that are ordered and limited. The limit is part of the native query and the
order is not, so an answer orders the entities that come first by their keys.
-/

namespace StoreGateway

namespace EntityTable

variable {params : Params} {filter : Option Filter} {records all : List Record}

theorem select_limited {es : List Entity} (n : Nat)
    (selected : select params filter none es = .ok all) :
    select params filter (some n) es = .ok (all.take n) := by
  induction es generalizing n all with
  | nil =>
    cases selected
    rw [List.take_nil]
    rfl
  | cons e rest ih =>
    rw [select]
    by_cases full : n = 0
    · rw [full, if_pos rfl]
      rfl
    · rw [if_neg fun same => full (Option.some.inj same)]
      obtain ⟨m, rfl⟩ := Nat.exists_eq_succ_of_ne_zero full
      rcases select_cons_ok selected with
        ⟨none, -⟩ | ⟨-, first, read, ⟨kept, more⟩ | ⟨kept, others, more, rfl⟩⟩
      · cases none
      · simp only [read, bind, Except.bind, kept, Bool.false_eq_true, if_false]
        exact ih _ more
      · have rest_found : select params filter ((some (m + 1)).map (· - 1)) rest =
            .ok (others.take m) := ih m more
        simp only [read, bind, Except.bind, kept, if_true, rest_found]
        rfl

theorem query_limited {t after : EntityTable} {table text : String} (n : Nat)
    (found : ran (query table (.ofText text)) t = (.ok all, after)) :
    ran (query table ⟨text, [], some n⟩) t = (.ok (all.take n), t) := by
  obtain ⟨-, filter, parsed, selected⟩ := query_cases found
  have parsed' : filterOf ⟨text, [], some n⟩ = .ok filter := parsed
  change ran (liftM (filterOf ⟨text, [], some n⟩) >>= _) t = _
  rw [parsed', ran_bind_ok (ran_lift _ t)]
  change ran (get >>= _) t = _
  rw [ran_bind_ok (ran_get t), ran_lift]
  exact Prod.ext (select_limited n selected) rfl

end EntityTable

theorem Record.sortByKeys_nil (records : List Record) : sortByKeys [] records = records := by
  have folded (rest sorted : List Record) :
      rest.foldl (fun sorted r => insertBehind [] r sorted) sorted = rest.reverse ++ sorted := by
    induction rest generalizing sorted with
    | nil => rfl
    | cons r rest ih =>
      have front : insertBehind [] r sorted = r :: sorted := by cases sorted <;> rfl
      rw [List.foldl_cons, front, ih, List.reverse_cons, List.append_assoc]
      rfl
  rw [sortByKeys, folded, List.append_nil, List.reverse_reverse]

/-- The keys that a request orders by, none if it does not ask for an order. -/
def RequestOptions.sortKeys (o : RequestOptions) : List SortKey :=
  (o.orderBy.map (SortKey.ofText Option.none)).getD []

namespace Gateway

variable {g : Gateway EntityTable} {t : EntityTable} {table text : String} {o : RequestOptions}
  {filter : Option String} {found all : List Record}

def shows (o : RequestOptions) (records : List Record) : List Value :=
  (records.map ((o.selection .all).clean .table)).map Value.object

theorem ran_retrieve_text (backend : g.backend = EntityTable.backend)
    (effective : g.effectiveFilter o = .ok filter)
    (compiled : g.entityTexts table o filter = .ok [text])
    (queried : ran (EntityTable.query table ⟨text, [], some (g.limit o)⟩) t = (.ok found, t)) :
    ∃ e, ran (g.retrieve table o) t = (.ok e, t) ∧
      e.resource = shows o ((Record.sortByKeys o.sortKeys found).take (g.limit o)) := by
  have kind : g.kind = .table := by
    rw [Gateway.kind, backend]
    rfl
  have asked : ran (g.queryTexts table (g.limit o) [text]) t = (.ok found, t) := by
    have called : ran (g.backend.query table
        { NativeQuery.ofText text with limit := some (g.limit o) }) t = (.ok found, t) := by
      rw [backend]
      exact queried
    rw [queryTexts, ran_bind_ok (ran_perform_of_ok called)]
    change ran (pure (found ++ [])) t = _
    rw [List.append_nil]
    rfl
  unfold retrieve
  rw [effective, ran_bind_ok (ran_lift _ t)]
  simp only [kind]
  unfold retrieveEntities RequestOptions.sortKeys
  rw [compiled, ran_bind_ok (ran_lift _ t), ran_bind_ok asked]
  cases o.orderBy with
  | none =>
    rw [Option.map_none, Option.getD_none, Record.sortByKeys_nil]
    dsimp only
    refine ⟨_, ran_pure _ t, ?_⟩
    split <;> rfl
  | some keys =>
    rw [Option.map_some, Option.getD_some]
    dsimp only [Record.sortBy]
    refine ⟨_, ran_pure _ t, ?_⟩
    split <;> rfl

theorem mem_of_shows_eq {left right : List Record} (nodup : (all.map Record.keys).Nodup)
    (inside : ∀ r ∈ left, r ∈ all) (inside' : ∀ r ∈ right, r ∈ all)
    (same : shows o left = shows o right) {r : Record} (member : r ∈ left) : r ∈ right := by
  have keys (records : List Record) :
      (shows o records).map shownKeys = (records.map Record.keys).map some := by
    rw [shows, List.map_map, List.map_map, List.map_map]
    refine List.map_congr_left fun s _ => ?_
    change some ((o.selection .all).clean .table s).keys = some s.keys
    rw [keys_clean]
  have shown : (left.map Record.keys).map some = (right.map Record.keys).map some := by
    rw [← keys left, ← keys right, same]
  have among := List.mem_map_of_mem (f := some) (List.mem_map_of_mem (f := Record.keys) member)
  rw [shown, List.map_map] at among
  obtain ⟨s, member', equal⟩ := List.mem_map.mp among
  have is := List.inj_on_of_nodup_map nodup (inside' s member') (inside r member)
    (Option.some.inj equal)
  rwa [← is]

/-- An ordered read shows the first entities in the order of their keys, sorted; those are the first
of all sorted entities exactly if none that comes later by its key comes before one of them by the
order that is asked for. -/
theorem limited_read_of_order (backend : g.backend = EntityTable.backend) (keyed : t.Keyed)
    (effective : g.effectiveFilter o = .ok filter)
    (compiled : g.entityTexts table o filter = .ok [text])
    (found : ran (EntityTable.query table (.ofText text)) t = (.ok all, t))
    (orders : ∀ key ∈ o.sortKeys, key.Orders all) :
    ∃ e, ran (g.retrieve table o) t = (.ok e, t) ∧
      e.resource = shows o (Record.sortByKeys o.sortKeys (all.take (g.limit o))) ∧
      (e.resource = shows o ((Record.sortByKeys o.sortKeys all).take (g.limit o)) ↔
        ∀ r ∈ all.drop (g.limit o), ∀ s ∈ all.take (g.limit o),
          SortKey.compareAll o.sortKeys r s ≠ .lt) := by
  obtain ⟨e, retrieved, resource⟩ := ran_retrieve_text backend effective compiled
    (EntityTable.query_limited (g.limit o) found)
  have front := Record.perm_sortByKeys o.sortKeys (all.take (g.limit o))
  have whole : (Record.sortByKeys o.sortKeys (all.take (g.limit o))).take (g.limit o) =
      Record.sortByKeys o.sortKeys (all.take (g.limit o)) := by
    refine List.take_of_length_le ?_
    rw [front.length_eq]
    exact List.length_take_le _ _
  rw [whole] at resource
  refine ⟨e, retrieved, resource, fun same => ?_, fun above => ?_⟩
  · rw [resource] at same
    have nodup := EntityTable.nodup_query keyed found
    have early : ∀ r ∈ Record.sortByKeys o.sortKeys (all.take (g.limit o)), r ∈ all :=
      fun r member => List.mem_of_mem_take (front.mem_iff.mp member)
    have top : ∀ r ∈ (Record.sortByKeys o.sortKeys all).take (g.limit o), r ∈ all :=
      fun r member => (Record.perm_sortByKeys _ all).mem_iff.mp (List.mem_of_mem_take member)
    refine Record.above_of_take_sortByKeys orders (List.Nodup.of_map _ nodup) fun r => ⟨fun member => ?_,
      fun member => ?_⟩
    · exact front.mem_iff.mp (mem_of_shows_eq nodup top early same.symm member)
    · exact mem_of_shows_eq nodup early top same (front.mem_iff.mpr member)
  · rw [resource, Record.take_sortByKeys above]

def scored : EntityTable :=
  ⟨[⟨"t", "P", "a", [("score", .int 2)], ""⟩, ⟨"t", "P", "b", [("score", .int 1)], ""⟩], 100, ⟨0, 0⟩⟩

def openGateway : Gateway EntityTable := .new EntityTable.backend

def firstBy (orderBy : String) : RequestOptions :=
  { RequestOptions.none with filter := some "score ge 1", orderBy := some orderBy, limit := some 1 }

def scoredRecords : List Record :=
  (ran (EntityTable.query "t" (.ofText "score ge 1")) scored).1.toOption.getD []

theorem scored_keyed : scored.Keyed := by
  refine ⟨by decide, fun e member => ?_⟩
  simp only [scored, List.mem_cons, List.not_mem_nil, or_false] at member
  rcases member with rfl | rfl <;> decide

theorem scored_found :
    ran (EntityTable.query "t" (.ofText "score ge 1")) scored = (.ok scoredRecords, scored) := by
  have found : (ran (EntityTable.query "t" (.ofText "score ge 1")) scored).1.toOption.isSome = true := by
    decide +kernel
  unfold scoredRecords
  rcases run : ran (EntityTable.query "t" (.ofText "score ge 1")) scored with ⟨outcome, after⟩
  rw [run] at found
  cases outcome with
  | error fault => cases found
  | ok all =>
    rw [(EntityTable.query_cases run).1]
    rfl

theorem scored_texts (orderBy : String) :
    openGateway.entityTexts "t" (firstBy orderBy) (some "score ge 1") = .ok ["score ge 1"] := by
  change openGateway.entityTexts "t" (firstBy "") (some "score ge 1") = _
  have one : (openGateway.entityTexts "t" (firstBy "") (some "score ge 1")).toOption =
      some ["score ge 1"] := by
    decide +kernel
  cases compiled : openGateway.entityTexts "t" (firstBy "") (some "score ge 1") with
  | error error =>
    rw [compiled] at one
    cases one
  | ok texts =>
    rw [compiled] at one
    exact congrArg Except.ok (Option.some.inj one)

/-- The highest score comes first by its key too, and is shown. -/
theorem limited_read_of_highest :
    ∃ e, ran (openGateway.retrieve "t" (firstBy "score desc")) scored = (.ok e, scored) ∧
      e.resource =
        shows (firstBy "score desc")
          ((Record.sortByKeys (firstBy "score desc").sortKeys scoredRecords).take 1) := by
  obtain ⟨e, retrieved, -, top⟩ := limited_read_of_order (g := openGateway) (o := firstBy "score desc")
    rfl scored_keyed rfl (scored_texts "score desc") scored_found (by decide +kernel)
  exact ⟨e, retrieved, top.mpr (by decide +kernel)⟩

/-- The lowest score comes last by its key, and is not shown. -/
theorem lowest_score_missed :
    scored.Keyed ∧
    openGateway.entityTexts "t" (firstBy "score") (some "score ge 1") = .ok ["score ge 1"] ∧
    ran (EntityTable.query "t" (.ofText "score ge 1")) scored = (.ok scoredRecords, scored) ∧
    (∀ key ∈ (firstBy "score").sortKeys, key.Orders scoredRecords) ∧
    ∃ e, (ran (openGateway.retrieve "t" (firstBy "score")) scored).1 = .ok e ∧
      e.resource ≠
        shows (firstBy "score")
          ((Record.sortByKeys (firstBy "score").sortKeys scoredRecords).take 1) := by
  refine ⟨scored_keyed, scored_texts "score", scored_found, by decide +kernel, ?_⟩
  have shown : (ran (openGateway.retrieve "t" (firstBy "score")) scored).1.toOption.map
      (fun e => e.resource.map shownKeys) = some [some (some "P", some "a")] := by
    decide +kernel
  have lowest : (shows (firstBy "score")
      ((Record.sortByKeys (firstBy "score").sortKeys scoredRecords).take 1)).map shownKeys =
        [some (some "P", some "b")] := by
    decide +kernel
  cases retrieved : (ran (openGateway.retrieve "t" (firstBy "score")) scored).1 with
  | error error =>
    rw [retrieved] at shown
    cases shown
  | ok e =>
    rw [retrieved] at shown
    refine ⟨e, rfl, fun same => ?_⟩
    have keys : e.resource.map shownKeys = [some (some "P", some "a")] := Option.some.inj shown
    rw [same, lowest] at keys
    exact absurd keys (by decide)

end Gateway

end StoreGateway

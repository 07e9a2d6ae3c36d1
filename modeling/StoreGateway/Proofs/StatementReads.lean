import StoreGateway.Proofs.DocumentReads
import StoreGateway.Proofs.NativeTexts

/-!
Statements that are put together for a collection are read as their parts: the collection, the
predicate, the columns and an ordering that sorts as the one asked for.
-/

namespace StoreGateway

open StoreGateway.Filter Select Text

/-- Records in the order asked for, as they come if none is. -/
def Record.inOrder (orderBy qualifier : Option String) (records : List Record) : List Record :=
  orderBy.elim records fun keys => Record.sortBy keys qualifier records

namespace DocumentQuery

/-- A field that stands as one word in a list of columns. -/
structure IsColumn (field : String) : Prop where
  present : field ≠ ""
  no_comma : ',' ∉ field.toList
  unbroken : Unbroken field.toList

theorem IsColumn.isPart {field : String} (is : IsColumn field) : IsPart field.toList := by
  refine ⟨⟨?_, ?_, ?_⟩, is.no_comma⟩
  · exact fun empty => is.present (String.toList_eq_nil_iff.mp empty)
  · exact fun c first => is.unbroken c (List.mem_of_mem_head? first)
  · exact fun c last => is.unbroken c (List.mem_of_mem_getLast? last)

/-- The compiler makes the predicate from a text without calls. -/
def Compiler.MakesPlain (compiler : Compiler) (native : CompiledFilter) : Prop :=
  ∃ text f, Filter.parse compiler.params text = .ok (some f) ∧ f.CallFree ∧
    compiler.compile f = .ok native

variable {compiler : Compiler} {filter : Option CompiledFilter} {projection : Option (List String)}

theorem columns_map_withIdentifier (collection : String) (projection : Option (List String)) :
    columns collection (projection.map withIdentifier) = columns collection projection := by
  cases projection with
  | none => rfl
  | some fields =>
    have has := List.contains_iff_mem.mpr (documentId_mem_withIdentifier fields)
    simp only [Option.map_some, columns, if_pos has]
    rfl

theorem listable_withIdentifier (names : ∀ fields ∈ projection, ∀ field ∈ fields, IsColumn field) :
    ∀ fields ∈ projection.map withIdentifier, Listable fields := by
  intro fields asked
  obtain ⟨given, among, rfl⟩ := Option.map_eq_some_iff.mp asked
  refine ⟨documentId_mem_withIdentifier given, fun field member => ?_⟩
  rcases mem_withIdentifier member with member | rfl
  · exact (names given among field member).isPart
  · exact ⟨by decide, by decide⟩

theorem ordered_eq_inOrder (s : Select) (records : List Record) :
    ordered (some s) records = Record.inOrder s.orderBy (some s.collection) records := by
  rcases s with ⟨projection, collection, predicate, _ | keys⟩ <;> rfl

theorem inOrder_none (orderBy : Option String) (records : List Record) :
    Record.inOrder orderBy none records =
      Record.sortByKeys ((orderBy.map (SortKey.ofText none)).getD []) records := by
  cases orderBy with
  | none => exact (Record.sortByKeys_nil records).symm
  | some keys =>
    rw [Option.map_some, Option.getD_some, Record.inOrder, Option.elim_some, Record.sortBy]

theorem predicateText_makes (valid : DocumentStore.checkName compiler.collection = .ok ())
    (made : ∀ native ∈ filter, compiler.MakesPlain native) :
    kept (predicateText filter) = filter.map CompiledFilter.text ∧
      ∀ p, predicateText filter = some p → Opens p ∧ Silent p := by
  cases filter with
  | none => exact ⟨rfl, nofun⟩
  | some native =>
    obtain ⟨text, f, parsed, call_free, compiled⟩ := made native rfl
    obtain ⟨g, reads⟩ : Readable [] .or native.text :=
      readable_compiled valid (formed_of_parse parsed) compiled
    refine ⟨Gateway.kept_predicateText reads.trimmed, fun p predicate => ?_⟩
    obtain ⟨native', found, rfl⟩ := Option.map_eq_some_iff.mp predicate
    cases (Option.filter_eq_some_iff.mp found).1
    refine ⟨?_, silent_compiled valid parsed call_free compiled⟩
    obtain ⟨c, rest, same⟩ := List.exists_cons_of_ne_nil reads.trimmed.present
    exact ⟨c, rest, same, reads.trimmed.head c (by rw [same]; rfl)⟩

/-- A statement is read as what it was put together from: for a filter without calls, columns of one
word each and an ordering of a field and at most a direction in each part, which sorts records as it
does before the fields are qualified. -/
theorem statement_read_back (compiler : Compiler) (filter : Option CompiledFilter)
    (projection : Option (List String)) (orderBy : Option String)
    (valid : DocumentStore.checkName compiler.collection = .ok ())
    (made : ∀ native ∈ filter, compiler.MakesPlain native)
    (names : ∀ fields ∈ projection, ∀ field ∈ fields, IsColumn field)
    (few : ∀ keys ∈ orderBy, FewWords keys) :
    ∃ s, Select.ofText (statement compiler.collection filter projection orderBy) = .ok s ∧
      s.collection = compiler.collection ∧ s.predicate = filter.map CompiledFilter.text ∧
      s.projection = projection.map withIdentifier ∧
      ∀ records, Record.inOrder s.orderBy (some s.collection) records =
        Record.inOrder orderBy none records := by
  obtain ⟨predicate, clear⟩ := predicateText_makes valid made
  have unambiguous : Unambiguous compiler.collection filter projection orderBy :=
    unambiguous_statement valid (fun p same => (clear p same).2)
      (fun fields asked field member => (names fields asked field member).unbroken) few
  refine ⟨_, ofText_statement valid unambiguous fun p same => (clear p same).1, rfl, predicate, ?_,
    fun records => ?_⟩
  · have read := projectionOf_columns valid (listable_withIdentifier names)
    rw [columns_map_withIdentifier] at read
    rw [selectOf, read]
  · rw [← ordered_eq_inOrder, ordered_statement valid, inOrder_none]

/-- A collection, fields and a direction that are named as the words of a statement are. -/
theorem statement_read_back_of_words :
    ∃ s, Select.ofText ("SELECT where.from, where.where, where.id FROM where " ++
        "WHERE where.select = @select1 ORDER BY where.order DESC, where.by") = .ok s ∧
      s.collection = "where" ∧ s.predicate = some "where.select = @select1" ∧
      s.projection = some ["from", "where", "id"] ∧
      ∀ records, Record.inOrder s.orderBy (some s.collection) records =
        Record.inOrder (some " order DESC ,, by") none records := by
  have parsed : Filter.parse [] "select = 'where'" =
      .ok (some (.test ⟨"select", .compare .eq, .literal "'where'", false⟩)) := by
    decide +kernel
  refine statement_read_back ⟨"where", FieldMap.openFor .document, []⟩
    (some ⟨"where.select = @select1", [⟨"@select1", .string "where"⟩]⟩)
    (some ["from", "where"]) (some " order DESC ,, by") rfl ?_ ?_ ?_
  · rintro _ ⟨⟩
    refine ⟨_, _, parsed, ?_, rfl⟩
    intro c member operand single raw
    cases List.mem_singleton.mp member
    cases List.mem_singleton.mp single
    exact nofun
  · rintro _ ⟨⟩ field member
    simp only [List.mem_cons, List.not_mem_nil, or_false] at member
    rcases member with rfl | rfl
    · exact ⟨by decide, by decide, by decide⟩
    · exact ⟨by decide, by decide, by decide⟩
  · rintro _ ⟨⟩
    change ∀ part ∈ commaList " order DESC ,, by", (words part).length ≤ 2
    decide

end DocumentQuery

end StoreGateway

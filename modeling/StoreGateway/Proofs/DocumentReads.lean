import StoreGateway.Proofs.ClauseWords
import StoreGateway.Proofs.DocumentIdentities
import StoreGateway.Proofs.OrderedReads
import StoreGateway.Proofs.Rereading
import StoreGateway.Proofs.ServerConditions

/-!
Reads from a collection: the documents that the compiled predicate keeps, in the order asked for, up
to the limit, with the fields asked for; and the number of them all.
-/

namespace StoreGateway

open StoreGateway.Filter Select Text

namespace DocumentQuery

variable {collection : String}

theorem isPart_qualify (valid : DocumentStore.checkName collection = .ok ()) {part : String}
    (is : IsPart part.toList) : IsPart (StoreKind.document.qualify collection part).toList := by
  have word := isWord_collection valid
  rw [toList_qualify]
  refine ⟨?_, fun comma => ?_⟩
  · have joined := word.trimmed.join is.trimmed ['.']
    rwa [List.append_assoc] at joined
  · rcases List.mem_append.mp comma with comma | comma
    · exact absurd (word.letters ',' comma) (by decide)
    · rcases List.mem_cons.mp comma with same | comma
      · exact absurd same (by decide)
      · exact is.no_comma comma

/-- A projection of columns that can be listed, the identifier among them. -/
structure Listable (fields : List String) : Prop where
  identified : documentId ∈ fields
  part : ∀ field ∈ fields, IsPart field.toList

theorem projectionOf_columns (valid : DocumentStore.checkName collection = .ok ())
    {projection : Option (List String)} (listable : ∀ fields ∈ projection, Listable fields) :
    projectionOf collection (trimmed (columns collection projection).toList) = projection := by
  cases projection with
  | none =>
    rw [columns, trimmed, trimChars_of_trimmed (by decide), String.ofList_toList]
    exact if_pos rfl
  | some fields =>
    obtain ⟨identified, part⟩ := listable fields rfl
    let parts := fields.map (StoreKind.document.qualify collection)
    have present : parts ≠ [] := by
      intro empty
      rw [List.map_eq_nil_iff.mp empty] at identified
      cases identified
    have each : ∀ t ∈ parts, IsPart t.toList := by
      intro t member
      obtain ⟨field, inside, rfl⟩ := List.mem_map.mp member
      exact isPart_qualify valid (part field inside)
    have written : columns collection (some fields) = ", ".intercalate parts := by
      rw [columns]
      simp only [if_pos (List.contains_iff_mem.mpr identified)]
      rfl
    have several : ", ".intercalate parts ≠ "*" := by
      intro star
      have cut := split_listed present each
      rw [star] at cut
      obtain ⟨field, -, same⟩ := List.mem_map.mp (cut ▸ List.mem_cons_self : "*" ∈ parts)
      have dot : '.' ∈ "*".toList := by
        rw [← same, toList_qualify]
        simp
      exact absurd dot (by decide)
    have read (field : String) : unqualify (some collection)
        (StoreKind.document.qualify collection field) = field := unqualify_qualify collection field
    have shown : ∀ field ∈ fields, field ≠ "" := by
      rintro _ member rfl
      exact (part "" member).trimmed.present rfl
    rw [written, trimmed, trimChars_of_trimmed (trimmed_listed present each), String.ofList_toList,
      projectionOf, if_neg several]
    calc some (((split ',' (", ".intercalate parts)).map fun c =>
          unqualify (some collection) (trim c)).filter (· ≠ ""))
        = some ((((split ',' (", ".intercalate parts)).map trim).map
            (unqualify (some collection))).filter (· ≠ "")) := by rw [List.map_map]; rfl
      _ = some (fields.filter (· ≠ "")) := by
          rw [split_listed present each, List.map_map]
          simp only [Function.comp_def, read, List.map_id']
      _ = some fields := by
          rw [List.filter_eq_self.mpr fun field member => by simpa using shown field member]

theorem ofPart_qualify (valid : DocumentStore.checkName collection = .ok ()) {part : String}
    (is : IsPart part.toList) :
    SortKey.ofPart (some collection) (StoreKind.document.qualify collection part) =
      SortKey.ofPart none part := by
  obtain ⟨first, after, cut, opens⟩ := first_piece is.trimmed
  let more := (after.filter (· ≠ [])).map String.ofList
  have bare : words part = String.ofList first :: more := by
    rw [words_eq, cut, List.filter_cons, if_pos (by simpa using opens)]
    rfl
  have qualified : words (StoreKind.document.qualify collection part) =
      StoreKind.document.qualify collection (String.ofList first) :: more := by
    have word : String.ofList ((collection.toList ++ ['.']) ++ first) =
        StoreKind.document.qualify collection (String.ofList first) := by
      apply String.toList_inj.mp
      rw [toList_qualify_append, String.toList_ofList, String.toList_ofList]
    rw [words_eq, toList_qualify_append,
      splitOnP_unbroken_append (unbroken_qualifier valid) cut, List.filter_cons,
      if_pos (by simp), List.map_cons, word]
  have read : unqualify (some collection)
      (StoreKind.document.qualify collection (String.ofList first)) =
        unqualify none (String.ofList first) := unqualify_qualify collection _
  unfold SortKey.ofPart
  rw [bare, qualified]
  cases more <;> simp only [read]

/-- The ordering of a statement is the one that was asked for. -/
theorem ordered_statement (valid : DocumentStore.checkName collection = .ok ())
    (filter : Option CompiledFilter) (projection : Option (List String)) (orderBy : Option String)
    (records : List Record) :
    ordered (some (selectOf collection filter projection orderBy)) records =
      Record.sortByKeys ((orderBy.map (SortKey.ofText none)).getD []) records := by
  cases orderBy with
  | none => exact (Record.sortByKeys_nil records).symm
  | some order =>
    rw [Option.map_some, Option.getD_some, SortKey.ofText]
    cases parts : commaList order with
    | nil =>
      have unordered : keysText collection (some order) = none := by
        simp [keysText, StoreKind.ordering?, parts]
      rw [selectOf, unordered]
      exact (Record.sortByKeys_nil records).symm
    | cons part more =>
      let listed := (part :: more).map (StoreKind.document.qualify collection)
      have present : listed ≠ [] := List.cons_ne_nil _ _
      have each : ∀ t ∈ part :: more, IsPart t.toList := fun t member =>
        isPart_of_mem (parts ▸ member)
      have each' : ∀ t ∈ listed, IsPart t.toList := by
        intro t member
        obtain ⟨u, inside, rfl⟩ := List.mem_map.mp member
        exact isPart_qualify valid (each u inside)
      have trimmed := trimmed_listed present each'
      have written : kept (keysText collection (some order)) = some (", ".intercalate listed) := by
        have text : keysText collection (some order) = some (", ".intercalate listed).toList := by
          simp only [keysText, Option.bind_some, StoreKind.ordering?, parts]
          rfl
        have shown : ", ".intercalate listed ≠ "" := by
          intro empty
          exact trimmed.present (by rw [empty]; rfl)
        rw [text, kept, Option.map_some, Select.trimmed, trimChars_of_trimmed trimmed,
          String.ofList_toList]
        exact Option.filter_eq_some_iff.mpr ⟨rfl, by simpa using shown⟩
      have keys : SortKey.ofText (some collection) (", ".intercalate listed) =
          (part :: more).map (SortKey.ofPart none) := by
        rw [SortKey.ofText, commaList_listed present each', List.map_map]
        exact List.map_congr_left fun t member => ofPart_qualify valid (each t member)
      rw [selectOf, written]
      change Record.sortByKeys (SortKey.ofText (some collection) (", ".intercalate listed)) records = _
      rw [keys]

/-- The predicate that a request is compiled to holds of a record. Without one every record will do. -/
def satisfies (collection : String) (compiled : Option CompiledFilter) (r : Record) : Bool :=
  compiled.all fun native =>
    let bound := NativeQuery.paramsByName ⟨native.text, native.params, none⟩
    match Filter.parse bound native.text with
    | .ok (some f) => (f.holds bound (some collection) r).toOption == some true
    | _ => false

variable {compiler : Compiler} {text : String} {f : Filter} {native : CompiledFilter}

end DocumentQuery

/-- What a statement put together from a request is not mistaken for another by: calls in its filter,
blanks in its fields, and more than a field and a direction in a part of its ordering. -/
structure RequestOptions.Plain (o : RequestOptions) : Prop where
  call_free : ∀ text f, o.filterText = some text → Filter.parse o.params text = .ok (some f) →
    f.CallFree
  fields : ∀ fields, o.selection .all = .only fields → ∀ field ∈ fields, Unbroken field.toList
  order : ∀ keys, o.orderBy = some keys → DocumentQuery.FewWords keys

namespace Gateway

open DocumentQuery DocumentStore

variable {g : Gateway DocumentStore} {s : DocumentStore} {table : String} {o : RequestOptions}

/-- The documents that a compiled filter keeps. -/
def chosen (table : String) (compiled : Option CompiledFilter) (documents : List Document) :
    List Record :=
  (documents.map Document.toRecord).filter (satisfies table compiled)

/-- Asks for the document with the highest value, and for the number of all with at least one. -/
def highest : RequestOptions :=
  { atLeastOne with
    fields := some "v", orderBy := some "v desc", limit := some 1, includeCount := true }

end Gateway

end StoreGateway

import StoreGateway.Proofs.DocumentReads

/-!
Requests to a collection that differ only in the fields and the ordering that they ask for. Main
statement: they show the same documents, each in its own order, or have the same error.
-/

namespace StoreGateway

namespace Gateway

open DocumentQuery DocumentStore Select SortKey

variable {g : Gateway DocumentStore} {s : DocumentStore} {table : String} {o : RequestOptions}

def shownId (v : Value) : Option Value := v.object?.bind identifier

/-- The answer shows the identifiers of the records found, in the order of the keys, or has the same
error. -/
def Shows (keys : List SortKey) (found : Except RequestError (List Record))
    (answer : Except RequestError Envelope) : Prop :=
  match found, answer with
  | .ok records, .ok e => ∃ sorted : List Record, sorted.Perm records ∧
      sorted.Pairwise (fun earlier later => compareAll keys earlier later ≠ .gt) ∧
      e.resource.map shownId = sorted.map identifier
  | .error e, .error e' => e = e'
  | _, _ => False

/-- The ordering of a request is one among the records that its filter finds. Values of several kinds
may make it none, and then sorting by it has no outcome to rely on. -/
def Orders (g : Gateway DocumentStore) (s : DocumentStore) (table : String) (o : RequestOptions) :
    Prop :=
  ∀ records, g.found s table o = .ok records → OrdersAll o.sortKeys records

theorem identifiers_shown (valid : checkName table = .ok ()) (selection : Selection)
    (compiled : Option CompiledFilter) (projection : Option (List String)) (orderBy : Option String)
    {found : List Record} {limit : Nat} (room : found.length ≤ limit) :
    let select := selectOf table compiled projection orderBy
    (Envelope.ofRecords ((projected (some select) (limited (some limit)
      (ordered (some select) found))).map (selection.clean .document))).resource.map shownId =
        (Record.sortByKeys ((orderBy.map (SortKey.ofText none)).getD []) found).map identifier := by
  intro select
  have inOrder : ordered (some select) found =
      Record.sortByKeys ((orderBy.map (SortKey.ofText none)).getD []) found :=
    ordered_statement valid compiled projection orderBy found
  have all : limited (some limit) (ordered (some select) found) = ordered (some select) found :=
    List.take_of_length_le (by rw [(perm_ordered select found).length_eq]; exact room)
  have is : documentId ∈ StoreKind.document.identifiers := List.mem_cons_self
  calc (Envelope.ofRecords ((projected (some select) (limited (some limit)
        (ordered (some select) found))).map (selection.clean .document))).resource.map shownId
      = (projected (some select) (limited (some limit) (ordered (some select) found))).map
          identifier := by
        rw [Envelope.ofRecords, List.map_map, List.map_map]
        exact List.map_congr_left fun r _ => selection.get?_clean r is
    _ = (ordered (some select) found).map identifier := by rw [identifiers_projected, all]
    _ = _ := by rw [inOrder]

/-- What a compiled filter finds among documents. -/
def finds (table : String) (compiled : Option CompiledFilter) (documents : List Document) :
    Except DocumentFault (List Record) :=
  findsBy table (kept (predicateText compiled))
    (NativeQuery.paramsByName ⟨"", (compiled.map CompiledFilter.params).getD [], none⟩)
    (documents.map Document.toRecord)

theorem resource_withCount (e : Envelope) (n : Nat) : (e.withCount n).resource = e.resource := rfl

theorem answered_map {α β : Type} (ask : List Document → Except DocumentFault α) (f : α → β) :
    answered s table (fun documents => (ask documents).map f) = (answered s table ask).map f := by
  rcases answered_cases s table with ⟨error, refused⟩ | ⟨-, documents, -, asked⟩
  · rw [refused, refused]
    rfl
  · rw [asked, asked]
    cases ask documents <;> rfl

theorem answered_congr {α : Type} {ask ask' : List Document → Except DocumentFault α}
    (same : checkName table = .ok () → ask = ask') : answered s table ask = answered s table ask' := by
  cases valid : checkName table with
  | error fault =>
    unfold answered
    rw [valid]
    rfl
  | ok done => rw [same valid]

/-- What the statement of a request shows of the records found: a page of them, and their number. -/
theorem answered_statement (unambiguous : g.Unambiguous table o) {filter : Option String}
    {compiled : Option CompiledFilter} (effective : g.effectiveFilter o = .ok filter)
    (done : g.compileFilter table o filter = .ok compiled) (limit : Option Nat) :
    let select := selectOf table compiled ((o.selection .all).projection .document) o.orderBy
    let q : NativeQuery := ⟨statement table compiled ((o.selection .all).projection .document)
      o.orderBy, (compiled.map CompiledFilter.params).getD [], limit⟩
    answered s table (DocumentQuery.run q) = (answered s table (finds table compiled)).map
        (fun found => projected (some select) (limited limit (ordered (some select) found))) ∧
      answered s table (DocumentQuery.count q) = (answered s table (finds table compiled)).map
        (fun found => (projected (some select) (ordered (some select) found)).length) := by
  intro select q
  have run (valid : checkName table = .ok ()) := run_statement valid
    (unambiguous filter compiled effective done)
    (fun p predicate => opens_compileFilter valid done predicate)
    ((compiled.map CompiledFilter.params).getD [])
  rw [← answered_map, ← answered_map]
  refine ⟨answered_congr fun valid => funext fun documents => run valid limit documents,
    answered_congr fun valid => funext fun documents => ?_⟩
  unfold DocumentQuery.count
  rw [run valid none documents]
  change ((finds table compiled documents).map _ >>= _) = _
  cases finds table compiled documents <;> rfl

theorem length_found {records : List Record} {compiled : Option CompiledFilter}
    (found : answered s table (finds table compiled) = .ok records) :
    records.length ≤ (s.documents table).length := by
  rcases answered_cases s table with ⟨error, refused⟩ | ⟨-, documents, length, asked⟩
  · rw [refused] at found
    cases found
  · rw [asked] at found
    cases which : finds table compiled documents with
    | error fault =>
      rw [which] at found
      cases found
    | ok records' =>
      rw [which] at found
      cases found
      have short := length_findsBy which
      rwa [List.length_map, length] at short

theorem shows_found (backend : g.backend = DocumentStore.backend)
    (unambiguous : g.Unambiguous table o) (room : (s.documents table).length ≤ g.limit o)
    (orders : g.Orders s table o) :
    Shows o.sortKeys (g.found s table o) (ran (g.retrieve table o) s).1 := by
  have is : g.found s table o = (do
      let filter ← g.effectiveFilter o
      let compiled ← g.compileFilter table o filter
      answered s table (finds table compiled)) := rfl
  unfold Orders at orders
  rw [is] at orders ⊢
  rw [ran_retrieve backend]
  unfold documentQuery
  cases effective : g.effectiveFilter o with
  | error error => exact rfl
  | ok filter =>
    rw [effective] at orders
    simp only [Bind.bind, Except.bind] at orders ⊢
    cases done : g.compileFilter table o filter with
    | error error => exact rfl
    | ok compiled =>
      rw [done] at orders
      obtain ⟨page, total⟩ := answered_statement (s := s) unambiguous effective done (some (g.limit o))
      simp only [Pure.pure, Except.pure, page, total]
      cases found : answered s table (finds table compiled) with
      | error error => exact rfl
      | ok records =>
        have valid : checkName table = .ok () := by
          rcases answered_cases s table with ⟨error, refused⟩ | ⟨valid, -⟩
          · rw [refused] at found
            cases found
          · exact valid
        have shown := identifiers_shown valid (o.selection .all) compiled
          ((o.selection .all).projection .document) o.orderBy
          (Nat.le_trans (length_found found) room)
        have answer {e : Envelope} (resource : e.resource.map shownId =
            (Record.sortByKeys o.sortKeys records).map identifier) :
            Shows o.sortKeys (.ok records) (.ok e) :=
          ⟨_, Record.perm_sortByKeys _ _, Record.sorted_sortByKeys (orders records found), resource⟩
        simp only [Except.map]
        split
        · exact answer shown
        · split
          · exact answer (by rw [resource_withCount]; exact shown)
          · exact answer (by rw [resource_withCount]; exact shown)

/-- Two answers show the same documents, or have the same error. -/
def Alike (answer other : Except RequestError Envelope) : Prop :=
  match answer, other with
  | .ok e, .ok e' => (e.resource.map shownId).Perm (e'.resource.map shownId)
  | .error e, .error e' => e = e'
  | _, _ => False

theorem Shows.alike {keys keys' : List SortKey} {found : Except RequestError (List Record)}
    {answer other : Except RequestError Envelope} (shows_ : Shows keys found answer)
    (also : Shows keys' found other) : Alike answer other := by
  cases found with
  | error e =>
    cases answer with
    | ok _ => exact shows_.elim
    | error e' =>
      cases other with
      | ok _ => exact also.elim
      | error e'' => exact shows_.symm.trans also
  | ok records =>
    cases answer with
    | error _ => exact shows_.elim
    | ok e =>
      cases other with
      | error _ => exact also.elim
      | ok e' =>
        obtain ⟨sorted, perm, -, shown⟩ := shows_
        obtain ⟨sorted', perm', -, shown'⟩ := also
        change (e.resource.map shownId).Perm (e'.resource.map shownId)
        rw [shown, shown']
        exact (perm.trans perm'.symm).map identifier

/-- A statement that the store is asked for can be cut into its clauses. -/
def Cuts (g : Gateway DocumentStore) (table : String) (o : RequestOptions) : Prop :=
  ∀ filter q, g.effectiveFilter o = .ok filter →
    g.documentQuery table o (o.selection .all) filter = .ok q → checkName table = .ok () →
    ∃ select, Select.ofText q.text = .ok select

theorem cuts_of_unambiguous (unambiguous : g.Unambiguous table o) : g.Cuts table o := by
  intro filter q effective asked valid
  unfold documentQuery at asked
  cases done : g.compileFilter table o filter with
  | error error =>
    rw [done] at asked
    cases asked
  | ok compiled =>
    rw [done] at asked
    cases asked
    exact ⟨_, ofText_statement valid (unambiguous filter compiled effective done)
      fun p predicate => opens_compileFilter valid done predicate⟩

/-- Fields and ordering do not choose which documents are shown: requests that differ in them alone
show the same documents, each in its own order, or have the same error, as long as neither text has
clause words. -/
theorem fields_and_order_keep_documents (backend : g.backend = DocumentStore.backend)
    (room : (s.documents table).length ≤ g.limit o) {fields fields' orderBy orderBy' : Option String}
    (clear : g.Unambiguous table { o with fields := fields, orderBy := orderBy })
    (clear' : g.Unambiguous table { o with fields := fields', orderBy := orderBy' })
    (orders : g.Orders s table { o with fields := fields, orderBy := orderBy })
    (orders' : g.Orders s table { o with fields := fields', orderBy := orderBy' }) :
    let first : RequestOptions := { o with fields := fields, orderBy := orderBy }
    let second : RequestOptions := { o with fields := fields', orderBy := orderBy' }
    Alike (ran (g.retrieve table first) s).1 (ran (g.retrieve table second) s).1 ∧
      (Shows first.sortKeys (g.found s table o) (ran (g.retrieve table first) s).1 ∧
        Shows second.sortKeys (g.found s table o) (ran (g.retrieve table second) s).1) ∧
      g.Cuts table first ∧ g.Cuts table second := by
  intro first second
  have shown : Shows first.sortKeys (g.found s table o) (ran (g.retrieve table first) s).1 :=
    shows_found backend clear room orders
  have shown' : Shows second.sortKeys (g.found s table o) (ran (g.retrieve table second) s).1 :=
    shows_found backend clear' room orders'
  exact ⟨shown.alike shown', ⟨shown, shown'⟩, cuts_of_unambiguous clear,
    cuts_of_unambiguous clear'⟩

theorem unambiguous_atLeastOne (fields orderBy : Option String)
    (clear : DocumentQuery.Unambiguous "t" (some ⟨"t.v >= @v1", [⟨"@v1", .int 1⟩]⟩)
      (({ atLeastOne with fields := fields, orderBy := orderBy }.selection .all).projection .document)
      orderBy) :
    documentGateway.Unambiguous "t" { atLeastOne with fields := fields, orderBy := orderBy } := by
  intro filter compiled effective done
  have text : documentGateway.effectiveFilter
      { atLeastOne with fields := fields, orderBy := orderBy } = .ok (some "v >= 1") := rfl
  rw [text] at effective
  cases effective
  change documentGateway.compileFilter "t" atLeastOne (some "v >= 1") = .ok compiled at done
  rw [compiled_atLeastOne] at done
  cases done
  exact clear

theorem orders_atLeastOne (fields orderBy : Option String)
    (orders : ((documentGateway.found twoDocuments "t" atLeastOne).toOption.all fun records =>
      OrdersAll { atLeastOne with fields := fields, orderBy := orderBy }.sortKeys records) = true) :
    documentGateway.Orders twoDocuments "t"
      { atLeastOne with fields := fields, orderBy := orderBy } := by
  intro records found
  have same : documentGateway.found twoDocuments "t" atLeastOne = .ok records := found
  rw [same] at orders
  exact of_decide_eq_true orders

theorem fields_and_order_keep_documents_of_two :
    Alike
      (ran (documentGateway.retrieve "t" { atLeastOne with fields := some "v", orderBy := none })
        twoDocuments).1
      (ran (documentGateway.retrieve "t"
        { atLeastOne with fields := none, orderBy := some "v desc" }) twoDocuments).1 :=
  (fields_and_order_keep_documents rfl (by decide) (unambiguous_atLeastOne _ _ (by decide))
    (unambiguous_atLeastOne _ _ (by decide)) (orders_atLeastOne _ _ (by decide +kernel))
    (orders_atLeastOne _ _ (by decide +kernel))).1

/-- A field whose name has the clause words in it takes the place of the conditions. -/
theorem fields_choose_documents :
    (twoDocuments.documents "t").length ≤ documentGateway.limit RequestOptions.none ∧
    ¬ Alike
      (ran (documentGateway.retrieve "t" { RequestOptions.none with fields := some "id" })
        twoDocuments).1
      (ran (documentGateway.retrieve "t"
        { RequestOptions.none with fields := some "id,x FROM t WHERE v = 1 ORDER BY v" })
        twoDocuments).1 := by
  refine ⟨by decide, fun alike => ?_⟩
  have first : ((ran (documentGateway.retrieve "t" { RequestOptions.none with fields := some "id" })
      twoDocuments).1.toOption.any fun e => e.resource.length == 2) = true := by
    decide +kernel
  have second : ((ran (documentGateway.retrieve "t"
      { RequestOptions.none with fields := some "id,x FROM t WHERE v = 1 ORDER BY v" })
      twoDocuments).1.toOption.any fun e => e.resource.length == 1) = true := by
    decide +kernel
  revert alike first second
  generalize (ran (documentGateway.retrieve "t" { RequestOptions.none with fields := some "id" })
    twoDocuments).1 = answer
  generalize (ran (documentGateway.retrieve "t"
    { RequestOptions.none with fields := some "id,x FROM t WHERE v = 1 ORDER BY v" })
    twoDocuments).1 = other
  intro alike first second
  cases answer with
  | error e => cases first
  | ok e =>
    cases other with
    | error e' => cases second
    | ok e' =>
      have lengths : (e.resource.map shownId).length = (e'.resource.map shownId).length :=
        alike.length_eq
      rw [List.length_map, List.length_map, eq_of_beq first, eq_of_beq second] at lengths
      cases lengths

end Gateway

end StoreGateway

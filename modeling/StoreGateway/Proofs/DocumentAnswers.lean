import StoreGateway.Proofs.Answers
import StoreGateway.Proofs.Clauses
import StoreGateway.Proofs.DocumentMeaning
import StoreGateway.Proofs.DocumentUndo

/-! Which documents an answer shows, whatever columns and ordering are asked for. -/

namespace StoreGateway

open Select Text

namespace DocumentQuery

theorem opens_append {a : String} (opens : Opens a.toList) (b : String) :
    Opens (a ++ b).toList := by
  obtain ⟨c, rest, same, shown⟩ := opens
  exact ⟨c, rest ++ b.toList, by rw [String.toList_append, same, List.cons_append], shown⟩

theorem isName_of_valid {collection : String}
    (valid : DocumentStore.checkName collection = .ok ()) : IsName collection.toList := by
  have word := isWord_collection valid
  refine ⟨word.trimmed, fun c member same => ?_⟩
  have letter := word.letters c member
  rw [same] at letter
  exact absurd letter (by decide)

variable {collection : String}

theorem opens_qualify (opens : Opens collection.toList) (field : String) :
    Opens (StoreKind.document.qualify collection field).toList :=
  opens_append (opens_append opens ".") field

theorem opens_intercalate {separator : String} {texts : List String} (present : texts ≠ [])
    (each : ∀ t ∈ texts, Opens t.toList) : Opens (separator.intercalate texts).toList := by
  cases texts with
  | nil => exact absurd rfl present
  | cons first more =>
    have opens := each first List.mem_cons_self
    cases more with
    | nil => rwa [String.intercalate_singleton]
    | cons next more =>
      rw [String.intercalate_cons_cons]
      exact opens_append (opens_append opens separator) _

theorem opens_conditionText (opens : Opens collection.toList) (field : String)
    (condition : Condition) (b : Bindings) :
    Opens ((conditionText collection field condition).run b).1.toList := by
  have target := opens_qualify opens field
  cases condition with
  | compare c operand =>
    exact opens_append (opens_append (opens_append (opens_append target " ") _) " ") _
  | oneOf operands => exact opens_append (opens_append (opens_append target " IN (") _) ")"
  | exactly text => exact opens_append (opens_append target " = ") _
  | between lower upper =>
    cases upper with
    | none => exact opens_append (opens_append target " >= ") _
    | some upper =>
      refine opens_append (opens_append (opens_append (opens_append (opens_append (opens_append
        (opens_append (opens_append ?_ _) _) _) _) _) _) _) _
      exact ⟨'(', [], rfl, by decide⟩
  | nullCheck present =>
    cases present
    · exact opens_append target " IS NULL"
    · exact opens_append target " IS NOT NULL"

theorem opens_negation (text : String) : Opens ("NOT (" ++ text ++ ")").toList :=
  opens_append (opens_append ⟨'N', _, rfl, by decide⟩ text) ")"

mutual

theorem opens_planText (opens : Opens collection.toList) : ∀ (p : Plan) (b : Bindings),
    (p.isChain = true ∧ ((planText collection p).run b).1 = "") ∨
      Opens ((planText collection p).run b).1.toList
  | .test field condition negated, b => by
    have condition := opens_conditionText opens field condition b
    rw [planText]
    cases negated with
    | false => exact .inr condition
    | true => exact .inr (opens_negation _)
  | .negate p, b => by
    rw [planText]
    exact .inr (opens_negation _)
  | .all children, b => by
    have each := opens_childTexts opens children b
    rw [planText]
    change (_ ∧ " AND ".intercalate ((childTexts collection children).run b).1 = "") ∨
      Opens (" AND ".intercalate ((childTexts collection children).run b).1).toList
    by_cases present : ((childTexts collection children).run b).1 = []
    · rw [present]
      exact .inl ⟨rfl, rfl⟩
    · exact .inr (opens_intercalate present each)
  | .any children, b => by
    have each := opens_childTexts opens children b
    rw [planText]
    change (_ ∧ " OR ".intercalate ((childTexts collection children).run b).1 = "") ∨
      Opens (" OR ".intercalate ((childTexts collection children).run b).1).toList
    by_cases present : ((childTexts collection children).run b).1 = []
    · rw [present]
      exact .inl ⟨rfl, rfl⟩
    · exact .inr (opens_intercalate present each)

theorem opens_childTexts (opens : Opens collection.toList) : ∀ (ps : List Plan) (b : Bindings),
    ∀ t ∈ ((childTexts collection ps).run b).1, Opens t.toList
  | [], b => by
    rw [childTexts]
    nofun
  | p :: rest, b => by
    have first := opens_planText opens p b
    have others := opens_childTexts opens rest ((planText collection p).run b).2
    have run : ((childTexts collection (p :: rest)).run b).1 =
        (if p.isChain then "(" ++ ((planText collection p).run b).1 ++ ")"
          else ((planText collection p).run b).1) ::
        ((childTexts collection rest).run ((planText collection p).run b).2).1 := by
      rw [childTexts]
      rfl
    rw [run]
    intro t member
    rcases List.mem_cons.mp member with rfl | member
    · cases chain : p.isChain with
      | true => exact opens_append (opens_append ⟨'(', _, rfl, by decide⟩ _) ")"
      | false =>
        rcases first with ⟨is, -⟩ | opens
        · rw [chain] at is
          cases is
        · exact opens
    · exact others t member

end

def predicateText (filter : Option CompiledFilter) : Option (List Char) :=
  (filter.filter fun f => !f.isEmpty).map fun f => f.text.toList

def keysText (collection : String) (orderBy : Option String) : Option (List Char) :=
  (orderBy.bind (StoreKind.document.ordering? collection)).map String.toList

theorem toList_statement (collection : String) (filter : Option CompiledFilter)
    (projection : Option (List String)) (orderBy : Option String) :
    (statement collection filter projection orderBy).toList =
      written (columns collection projection).toList collection.toList (predicateText filter)
        (keysText collection orderBy) := by
  have first : "SELECT ".toList = selectWord := rfl
  have second : " FROM ".toList = fromWord := rfl
  have third : " WHERE ".toList = whereWord := rfl
  have fourth : " ORDER BY ".toList = orderWord := rfl
  unfold statement predicateText keysText written source
  cases filter.filter fun f => !f.isEmpty <;>
    cases orderBy.bind (StoreKind.document.ordering? collection) <;>
    simp [clause, first, second, third, fourth]

theorem ordering_cases {order text : String}
    (ordering : StoreKind.document.ordering? collection order = some text) :
    commaList order ≠ [] ∧
      text = ", ".intercalate ((commaList order).map (StoreKind.document.qualify collection)) := by
  rw [StoreKind.ordering?] at ordering
  generalize commaList order = parts at ordering
  cases parts with
  | nil => cases ordering
  | cons part more => exact ⟨List.cons_ne_nil part more, (Option.some.inj ordering).symm⟩

theorem opens_keysText (opens : Opens collection.toList) {orderBy : Option String} {k : List Char}
    (keys : keysText collection orderBy = some k) : Opens k := by
  obtain ⟨text, found, rfl⟩ := Option.map_eq_some_iff.mp keys
  obtain ⟨order, rfl, ordering⟩ := Option.bind_eq_some_iff.mp found
  obtain ⟨present, same⟩ := ordering_cases ordering
  rw [same]
  refine opens_intercalate (by simpa using present) fun t member => ?_
  obtain ⟨field, -, rfl⟩ := List.mem_map.mp member
  exact opens_qualify opens field

/-- The parts of a statement have no clause word where it would be taken for one. -/
structure Unambiguous (collection : String) (filter : Option CompiledFilter)
    (projection : Option (List String)) (orderBy : Option String) : Prop where
  columns : ClearColumns (columns collection projection).toList
  clauses : Clear (predicateText filter) (keysText collection orderBy)

instance (collection : String) (filter : Option CompiledFilter)
    (projection : Option (List String)) (orderBy : Option String) :
    Decidable (Unambiguous collection filter projection orderBy) :=
  decidable_of_iff (ClearColumns (columns collection projection).toList ∧
      Clear (predicateText filter) (keysText collection orderBy))
    ⟨fun both => ⟨both.1, both.2⟩, fun unambiguous => ⟨unambiguous.columns, unambiguous.clauses⟩⟩

theorem opens_compiled (opens : Opens collection.toList) {fields : FieldMap} {params : Params}
    {text : String} {filter : Option CompiledFilter}
    (compiled : Compiler.compileText ⟨collection, fields, params⟩ text = .ok filter) {p : List Char}
    (predicate : predicateText filter = some p) : Opens p := by
  obtain ⟨native, found, rfl⟩ := Option.map_eq_some_iff.mp predicate
  obtain ⟨same, present⟩ := Option.filter_eq_some_iff.mp found
  subst same
  unfold Compiler.compileText at compiled
  split at compiled
  · cases compiled
  · cases compiled
  · next f _ =>
    cases made : Compiler.compile ⟨collection, fields, params⟩ f with
    | error fault =>
      rw [made] at compiled
      cases compiled
    | ok other =>
      rw [made] at compiled
      cases compiled
      obtain ⟨plan, -, rfl⟩ := Compiler.plan_of_compile made
      rcases opens_planText opens plan .none with ⟨-, empty⟩ | opens
      · have blank : ((planText collection plan).run .none).1.isEmpty = true := by
          rw [empty]
          rfl
        have shown : (!((planText collection plan).run .none).1.isEmpty) = true := present
        rw [blank] at shown
        cases shown
      · exact opens

/-- The records that a predicate keeps. -/
def findsBy (collection : String) (predicate : Option String) (params : Params)
    (records : List Record) : Except DocumentFault (List Record) := do
  let f ← predicateOf params (some ⟨none, collection, predicate, none⟩)
  matching params (some collection) f records

/-- Whether the first of some records is found beside those of the others. -/
theorem matching_cons_ok {params : Params} {qualifier : Option String} {f : Filter} {r : Record}
    {rest found : List Record}
    (matched : matching params qualifier (some f) (r :: rest) = .ok found) :
    ∃ kept others, f.holds params qualifier r = .ok kept ∧
      matching params qualifier (some f) rest = .ok others ∧
      found = if kept then r :: others else others := by
  rw [matching] at matched
  cases holds : f.holds params qualifier r with
  | error fault =>
    simp only [holds] at matched
    cases matched
  | ok kept =>
    simp only [holds] at matched
    obtain ⟨others, more, matched⟩ := bind_ok matched
    cases matched
    exact ⟨kept, others, rfl, more, rfl⟩

theorem sublist_matching {params : Params} {qualifier : Option String} {predicate : Option Filter}
    {records found : List Record}
    (matched : matching params qualifier predicate records = .ok found) :
    found.Sublist records := by
  induction records generalizing found with
  | nil =>
    cases matched
    exact List.Sublist.refl _
  | cons r rest ih =>
    cases predicate with
    | none =>
      cases matched
      exact List.Sublist.refl _
    | some f =>
      obtain ⟨kept, others, -, more, rfl⟩ := matching_cons_ok matched
      cases kept with
      | false => exact (ih more).cons r
      | true => exact (ih more).cons_cons r

theorem length_findsBy {predicate : Option String} {params : Params} {records found : List Record}
    (finds : findsBy collection predicate params records = .ok found) :
    found.length ≤ records.length := by
  unfold findsBy at finds
  cases f : predicateOf params (some ⟨none, collection, predicate, none⟩) with
  | error fault =>
    rw [f] at finds
    cases finds
  | ok f =>
    simp only [f] at finds
    exact (sublist_matching finds).length_le

/-- What a statement is read as. -/
def selectOf (collection : String) (filter : Option CompiledFilter)
    (projection : Option (List String)) (orderBy : Option String) : Select :=
  ⟨projectionOf collection (trimmed (columns collection projection).toList), collection,
    kept (predicateText filter), kept (keysText collection orderBy)⟩

theorem ofText_statement (valid : DocumentStore.checkName collection = .ok ())
    {filter : Option CompiledFilter} {projection : Option (List String)} {orderBy : Option String}
    (unambiguous : Unambiguous collection filter projection orderBy)
    (opens : ∀ p, predicateText filter = some p → Opens p) :
    Select.ofText (statement collection filter projection orderBy) =
      .ok (selectOf collection filter projection orderBy) := by
  have is := isName_of_valid valid
  have read := ofText_written is unambiguous.columns unambiguous.clauses opens
    (fun k keys => opens_keysText is.opens keys)
    (toList_statement collection filter projection orderBy)
  rwa [String.ofList_toList] at read

theorem predicateOf_eq {params : Params} {a b : Select} (same : a.predicate = b.predicate) :
    predicateOf params (some a) = predicateOf params (some b) := by
  unfold predicateOf
  rw [Option.bind_some, Option.bind_some, same]

/-- Columns and ordering choose what is shown of the records found, and in which order. -/
theorem run_statement (valid : DocumentStore.checkName collection = .ok ())
    {filter : Option CompiledFilter} {projection : Option (List String)} {orderBy : Option String}
    (unambiguous : Unambiguous collection filter projection orderBy)
    (opens : ∀ p, predicateText filter = some p → Opens p) (bound : List BoundParam)
    (limit : Option Nat) (documents : List Document) :
    run ⟨statement collection filter projection orderBy, bound, limit⟩ documents =
      (findsBy collection (kept (predicateText filter))
        (NativeQuery.paramsByName ⟨"", bound, none⟩) (documents.map Document.toRecord)).map
        fun found => projected (some (selectOf collection filter projection orderBy))
          (limited limit (ordered (some (selectOf collection filter projection orderBy)) found)) := by
  have shown : trimChars (statement collection filter projection orderBy).toList ≠ [] := by
    rw [toList_statement, trimChars_of_opens (opens_written _ _ _ _)]
    obtain ⟨c, rest, here, -⟩ := (opens_written (columns collection projection).toList
      collection.toList (predicateText filter) (keysText collection orderBy)).trimEnd
    rw [here]
    nofun
  let select : Select := selectOf collection filter projection orderBy
  let params : Params := NativeQuery.paramsByName ⟨"", bound, none⟩
  have alike : predicateOf params (some select) =
      predicateOf params (some ⟨none, collection, kept (predicateText filter), none⟩) :=
    predicateOf_eq rfl
  unfold run statementOf
  simp only [if_neg shown, ofText_statement valid unambiguous opens]
  change (predicateOf params (some select) >>= fun f =>
    matching params (some collection) f (documents.map Document.toRecord) >>= fun found => _) = _
  rw [alike]
  unfold findsBy
  cases predicate : predicateOf params
      (some ⟨none, collection, kept (predicateText filter), none⟩) with
  | error fault => rfl
  | ok f =>
    change (matching params (some collection) f (documents.map Document.toRecord) >>= _) =
      Except.map _ (matching params (some collection) f (documents.map Document.toRecord))
    cases matching params (some collection) f (documents.map Document.toRecord) <;> rfl

def identifier (r : Record) : Option Value := r.get? documentId

theorem identifier_project (fields : List String) (r : Record) : identifier (project fields r) = identifier r := by
  refine Record.get?_filter_of_keeps fun m _ same => ?_
  change (m.1 == documentId || fields.contains m.1) = true
  rw [same, beq_self_eq_true, Bool.true_or]

theorem perm_ordered (select : Select) (records : List Record) :
    (ordered (some select) records).Perm records := by
  unfold ordered
  split
  · exact Record.perm_sortBy _ _ records
  · exact List.Perm.refl _

theorem identifiers_projected (statement : Option Select) (records : List Record) :
    (projected statement records).map identifier = records.map identifier := by
  unfold projected
  split
  · next fields _ =>
    rw [List.map_map]
    exact List.map_congr_left fun r _ => identifier_project fields r
  · rfl

end DocumentQuery

namespace DocumentStore

theorem ran_listed (documents : List Document) (s : DocumentStore) :
    ran (documents.mapM fun d => liftM (reread d) : DocumentCall (List Document)) s =
      (documents.mapM reread, s) := by
  induction documents with
  | nil => rfl
  | cons d rest ih =>
    rw [List.mapM_cons, List.mapM_cons, ran_bind, ran_lift]
    cases reread d with
    | error fault => rfl
    | ok read =>
      change ran (List.mapM _ rest >>= _) s = _
      rw [ran_bind, ih]
      cases rest.mapM reread <;> rfl

theorem length_listed {documents read : List Document}
    (listed : documents.mapM reread = .ok read) : read.length = documents.length := by
  induction documents generalizing read with
  | nil =>
    cases listed
    rfl
  | cons d rest ih =>
    obtain ⟨d', more, -, others, rfl⟩ := mapM_cons_ok listed
    exact congrArg Nat.succ (ih others)

theorem ran_query (name : String) (q : NativeQuery) (s : DocumentStore) :
    ran (query name q) s = ((s.documents name).mapM reread >>= DocumentQuery.run q, s) := by
  change ran ((s.documents name).mapM (fun d => liftM (reread d)) >>= fun ds =>
    liftM (DocumentQuery.run q ds) : DocumentCall (List Record)) s = _
  rw [ran_bind, ran_listed]
  cases (s.documents name).mapM reread with
  | error fault => rfl
  | ok documents => exact ran_lift _ s

theorem ran_count (name : String) (q : NativeQuery) (s : DocumentStore) :
    ran (count name q) s = ((s.documents name).mapM reread >>= DocumentQuery.count q, s) := by
  change ran ((s.documents name).mapM (fun d => liftM (reread d)) >>= fun ds =>
    liftM (DocumentQuery.count q ds) : DocumentCall Nat) s = _
  rw [ran_bind, ran_listed]
  cases (s.documents name).mapM reread with
  | error fault => rfl
  | ok documents => exact ran_lift _ s

end DocumentStore

namespace Gateway

open DocumentQuery DocumentStore

variable {g : Gateway DocumentStore} {s : DocumentStore} {table : String} {o : RequestOptions}

/-- What the documents of a collection give for a question. -/
def answered {α : Type} (s : DocumentStore) (table : String)
    (ask : List Document → Except DocumentFault α) : Except RequestError α :=
  (checkName table >>= fun _ => (s.documents table).mapM reread >>= ask).mapError
    fun fault => .ofStore fault.toStoreFault

theorem ran_answered {α : Type} {call : DocumentCall α} {ask : List Document → Except DocumentFault α}
    (run : ran call s = ((s.documents table).mapM reread >>= ask, s)) :
    ran (perform (named table call)) s = (answered s table ask, s) := by
  rw [ran_perform, ran_named]
  unfold answered
  cases checkName table with
  | error fault => rfl
  | ok _ =>
    simp only [run]
    change _ = (((s.documents table).mapM reread >>= ask).mapError _, s)
    cases (s.documents table).mapM reread >>= ask <;> rfl

/-- A collection cannot be asked at all, or every question is about its documents. -/
theorem answered_cases (s : DocumentStore) (table : String) :
    (∃ error, ∀ {α : Type} (ask : List Document → Except DocumentFault α),
      answered s table ask = .error error) ∨
    (checkName table = .ok () ∧ ∃ documents : List Document,
      documents.length = (s.documents table).length ∧
      ∀ {α : Type} (ask : List Document → Except DocumentFault α), answered s table ask =
        (ask documents).mapError fun fault => .ofStore fault.toStoreFault) := by
  unfold answered
  cases valid : checkName table with
  | error fault => exact .inl ⟨.ofStore fault.toStoreFault, fun _ => rfl⟩
  | ok _ =>
    cases listed : (s.documents table).mapM reread with
    | error fault => exact .inl ⟨.ofStore fault.toStoreFault, fun _ => rfl⟩
    | ok documents => exact .inr ⟨rfl, documents, length_listed listed, fun _ => rfl⟩

/-- The records that the filter of a request finds in a collection. -/
def found (g : Gateway DocumentStore) (s : DocumentStore) (table : String) (o : RequestOptions) :
    Except RequestError (List Record) := do
  let filter ← g.effectiveFilter o
  let compiled ← g.compileFilter table o filter
  answered s table fun documents =>
    findsBy table (kept (predicateText compiled))
      (NativeQuery.paramsByName ⟨"", (compiled.map CompiledFilter.params).getD [], none⟩)
      (documents.map Document.toRecord)

/-- The answer to a read, which leaves the store as it is. -/
theorem ran_retrieve (backend : g.backend = DocumentStore.backend) :
    ran (g.retrieve table o) s = (do
      let filter ← g.effectiveFilter o
      let q ← g.documentQuery table o (o.selection .all) filter
      let records ← answered s table (DocumentQuery.run q)
      let envelope := Envelope.ofRecords (records.map ((o.selection .all).clean .document))
      if !o.includeCount then return envelope
      else if records.length < g.limit o then return envelope.withCount records.length
      else return envelope.withCount (← answered s table (DocumentQuery.count q)), s) := by
  have kind : g.kind = .document := by
    rw [Gateway.kind, backend]
    rfl
  change ran (liftM (g.effectiveFilter o) >>= _) s = _
  rw [ran_bind, ran_lift]
  cases g.effectiveFilter o with
  | error error => rfl
  | ok filter =>
    simp only [kind]
    change ran (liftM (g.documentQuery table o (o.selection .all) filter) >>= _) s = _
    rw [ran_bind, ran_lift]
    change _ = (g.documentQuery table o (o.selection .all) filter >>= _, s)
    cases g.documentQuery table o (o.selection .all) filter with
    | error error => rfl
    | ok q =>
      have asked : ran (perform (g.backend.query table q)) s =
          (answered s table (DocumentQuery.run q), s) := by
        rw [backend]
        exact ran_answered (ran_query table q s)
      have counted : ran (perform (g.backend.count table q)) s =
          (answered s table (DocumentQuery.count q), s) := by
        rw [backend]
        exact ran_answered (ran_count table q s)
      change ran (perform (g.backend.query table q) >>= _) s =
        (answered s table (DocumentQuery.run q) >>= _, s)
      rw [ran_bind, asked]
      cases answered s table (DocumentQuery.run q) with
      | error error => rfl
      | ok records =>
        change ran (if !o.includeCount then _ else if records.length < g.limit o then _ else
          perform (g.backend.count table q) >>= _) s = (if !o.includeCount then _ else
            if records.length < g.limit o then _ else
              answered s table (DocumentQuery.count q) >>= _, s)
        cases o.includeCount with
        | false => rfl
        | true =>
          by_cases short : records.length < g.limit o
          · simp only [if_pos short]
            rfl
          · simp only [if_neg short, Bool.not_true, Bool.false_eq_true, if_false]
            rw [ran_bind, counted]
            cases answered s table (DocumentQuery.count q) <;> rfl

/-- The statement of a request is read as it was put together. -/
def Unambiguous (g : Gateway DocumentStore) (table : String) (o : RequestOptions) : Prop :=
  ∀ filter compiled, g.effectiveFilter o = .ok filter →
    g.compileFilter table o filter = .ok compiled →
    DocumentQuery.Unambiguous table compiled ((o.selection .all).projection .document) o.orderBy

theorem opens_compileFilter (valid : checkName table = .ok ()) {filter : Option String}
    {compiled : Option CompiledFilter} (done : g.compileFilter table o filter = .ok compiled)
    {p : List Char} (predicate : predicateText compiled = some p) : Opens p := by
  cases filter with
  | none =>
    cases done
    cases predicate
  | some text =>
    unfold compileFilter compileRequest at done
    simp only at done
    cases compileText : (g.documentCompiler table o.params).compileText text with
    | error fault =>
      rw [compileText] at done
      cases done
    | ok filter =>
      rw [compileText] at done
      cases done
      exact opens_compiled (isName_of_valid valid).opens compileText predicate

def twoDocuments : DocumentStore :=
  ⟨[⟨"t", [⟨"a", "", [("v", .int 1)]⟩, ⟨"b", "", [("v", .int 2)]⟩]⟩], ⟨0, 0⟩⟩

def documentGateway : Gateway DocumentStore := Gateway.new DocumentStore.backend

def atLeastOne : RequestOptions := { RequestOptions.none with filter := some "v >= 1" }

theorem parsed_atLeastOne :
    Filter.parse [] "v >= 1" = .ok (some (.test ⟨"v", .compare .ge, .literal "1", false⟩)) := by
  decide +kernel

theorem compiled_atLeastOne :
    documentGateway.compileFilter "t" atLeastOne (some "v >= 1") =
      .ok (some ⟨"t.v >= @v1", [⟨"@v1", .int 1⟩]⟩) := by
  have native : DocumentQuery.Compiler.compileText ⟨"t", FieldMap.openFor .document, []⟩ "v >= 1" =
      .ok (some ⟨"t.v >= @v1", [⟨"@v1", .int 1⟩]⟩) := by
    unfold DocumentQuery.Compiler.compileText
    simp only [parsed_atLeastOne]
    rfl
  change compileRequest (DocumentQuery.Compiler.compileText ⟨"t", FieldMap.openFor .document, []⟩
    "v >= 1") = _
  rw [native]
  rfl

end Gateway

end StoreGateway

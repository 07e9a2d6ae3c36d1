import StoreGateway.Proofs.Conjunction
import StoreGateway.Proofs.DocumentAnswers
import StoreGateway.Proofs.KeyLists
import StoreGateway.Proofs.NativeTexts
import StoreGateway.Proofs.OwnTerms
import StoreGateway.Proofs.Readback
import StoreGateway.Proofs.StoredRecords

/-! What is shown and changed by filter satisfies the conditions of the service. -/

namespace StoreGateway

namespace Gateway

open StoreGateway.Filter

variable {σ ρ : Type} {g : Gateway σ} {table : String} {o : RequestOptions} {server : Filter}

def scope (g : Gateway σ) (table : String) : Scope := ⟨g.kind, g.fieldsFor table, []⟩

/-- A record satisfies conditions by themselves: with the fields that the table declares, and where
these make no difference, as the conditions are written. -/
structure Satisfies (g : Gateway σ) (table : String) (server : Filter) (r : Record) : Prop where
  declared : server.holdsBy ((g.scope table).testHolds r) = .ok true
  written : (∀ c ∈ server.comparisons, (g.scope table).Leaves c) →
    server.holds [] none r = .ok true

/-- The ways to take conditions by themselves: with the fields that the table declares, and as they are
written. These are two where a declared type turns a literal into another value: a key is a text, so
`RowKey = 5` and `id = 5` compare it with the text 5 in the first way and with the number in the
second, which no record satisfies. -/
inductive Takes (g : Gateway σ) (table : String) (server : Filter) : (Record → Prop) → Prop where
  | declared : Takes g table server fun r => server.holdsBy ((g.scope table).testHolds r) = .ok true
  | written (leaves : ∀ c ∈ server.comparisons, (g.scope table).Leaves c) :
    Takes g table server fun r => server.holds [] none r = .ok true

theorem Takes.satisfied {satisfied : Record → Prop} {r : Record}
    (takes : g.Takes table server satisfied) (satisfies : g.Satisfies table server r) :
    satisfied r := by
  cases takes with
  | declared => exact satisfies.declared
  | written leaves => exact satisfies.written leaves

/-- The conditions of the service and the filter of the caller are filters by themselves, and the
caller's parameters have no part in the conditions. -/
structure Sealed (g : Gateway σ) (o : RequestOptions) (server : Filter) : Prop where
  conditions : ∃ text, g.serverClause = .ok (some text) ∧
    Filter.parse [] text = .ok (some server) ∧ Filter.parse o.params text = .ok (some server)
  unbound : ∀ c ∈ server.comparisons, ∀ name, .param name ∈ c.operand.singles →
    o.params.lookup? name = none
  caller : ∀ text, o.filterText = some text → ∃ f, Filter.parse o.params text = .ok (some f)

theorem parse_partitionClause (params : Params) (p : String) :
    Filter.parse params (partitionKey ++ " eq " ++ Literal.quote p) =
      .ok (some (.test ⟨partitionKey, .compare .eq, .literal (Literal.quote p), false⟩)) := by
  have is : IsField partitionKey.toList := ⟨by decide, by decide⟩
  have quoted : ReadsAs params (Literal.quote p).toList (.literal (Literal.quote p)) :=
    readsAs_quote p
  have reads := (reads_single is (relates_entityWord .eq) quoted rfl rfl).toAnd.toOr.parse
  have text : partitionKey ++ " eq " ++ Literal.quote p = String.ofList (partitionKey.toList ++
      ' ' :: (Comparator.eq.entityWord.toList ++ ' ' :: (Literal.quote p).toList)) := by
    rw [← String.toList_inj]
    simp [partitionKey, Comparator.entityWord]
  rw [text]
  exact reads

theorem partitionClause_parses {text : String} (params : Params)
    (clause : g.partitionClause o = some text) : ∃ f, Filter.parse params text = .ok (some f) := by
  unfold partitionClause at clause
  split at clause
  · cases clause
  · obtain ⟨p, -, rfl⟩ := Option.map_eq_some_iff.mp clause
    exact ⟨_, parse_partitionClause params p⟩

theorem Sealed.others (sealed : g.Sealed o server) :
    ∃ more : List (String × Filter),
      (g.partitionClause o).toList ++ o.filterText.toList = more.map Prod.fst ∧
        ∀ c ∈ more, Filter.parse o.params c.1 = .ok (some c.2) := by
  have each : ∀ text ∈ (g.partitionClause o).toList ++ o.filterText.toList,
      ∃ f, Filter.parse o.params text = .ok (some f) := by
    intro text member
    rcases List.mem_append.mp member with member | member
    · exact partitionClause_parses o.params (Option.mem_toList.mp member)
    · exact sealed.caller text (Option.mem_toList.mp member)
  obtain ⟨more, same, parsed⟩ := exists_pairs each
  exact ⟨more, same, parsed⟩

/-- The filter of a request is the conjunction of the conditions with what else is asked for. -/
theorem Sealed.effective (sealed : g.Sealed o server) :
    ∃ text more, g.effectiveFilter o = .ok (some text) ∧
      Filter.parse o.params text = .ok (some (conjoined server more)) := by
  obtain ⟨clause, rendered, -, parsed⟩ := sealed.conditions
  obtain ⟨more, texts, each⟩ := sealed.others
  have all : ∀ c ∈ (clause, server) :: more, Filter.parse o.params c.1 = .ok (some c.2) := by
    intro c member
    rcases List.mem_cons.mp member with rfl | member
    · exact parsed
    · exact each c member
  obtain ⟨text, joined, whole⟩ := parse_joinClauses all
  refine ⟨text, more.map Prod.snd, ?_, whole⟩
  unfold effectiveFilter
  rw [rendered]
  change Except.ok (joinClauses (clause :: ((g.partitionClause o).toList ++ o.filterText.toList))) = _
  rw [texts]
  exact congrArg Except.ok joined

/-- What is satisfied as the request has it is satisfied by itself. -/
theorem Sealed.satisfies (sealed : g.Sealed o server) {r : Record}
    (planned : ∀ c ∈ server.comparisons,
      ∃ p, Scope.planTest ⟨g.kind, g.fieldsFor table, o.params⟩ c = .ok p)
    (holds : server.holdsBy (Scope.testHolds ⟨g.kind, g.fieldsFor table, o.params⟩ r) = .ok true) :
    g.Satisfies table server r := by
  obtain ⟨clause, -, parsed, -⟩ := sealed.conditions
  have formed := (formed_of_parse parsed).each
  have plain : ∀ c ∈ server.comparisons, c.Unparameterized := by
    intro c member
    obtain ⟨p, plan⟩ := planned c member
    exact unparameterized_of_planned (formed c member) plan (sealed.unbound c member)
  refine ⟨?_, fun leaves => ?_⟩
  · rw [← holds]
    exact holdsBy_congr fun c member =>
      Scope.testHolds_params (plain c member) g.kind (g.fieldsFor table) [] o.params r
  · rw [holds_eq_holdsBy, ← holds]
    refine holdsBy_congr fun c member => ?_
    obtain ⟨p, plan⟩ := planned c member
    have kept := leaves c member
    have same : Scope.Leaves ⟨g.kind, g.fieldsFor table, o.params⟩ c :=
      ⟨kept.field, kept.literals, kept.patterns⟩
    exact (Scope.testHolds_of_leaves (formed c member) same (plain c member) plan r).symm

theorem holdsBy_of_allHoldBy {leaf : Comparison → Except EvalFault Bool} {f : Filter}
    {fs : List Filter} (all : allHoldBy leaf (f :: fs) = .ok true) :
    f.holdsBy leaf = .ok true := by
  rw [allHoldBy] at all
  cases first : f.holdsBy leaf with
  | error fault =>
    rw [first] at all
    cases all
  | ok b =>
    rw [first] at all
    cases b
    · cases all
    · rfl

theorem mem_comparisons_conjoined {c : Comparison} (member : c ∈ server.comparisons)
    (more : List Filter) : c ∈ (conjoined server more).comparisons := by
  rw [comparisons_conjoined]
  exact mem_comparisonsAll List.mem_cons_self member

theorem Sealed.satisfies_conjoined (sealed : g.Sealed o server) {scope : Scope}
    (is : Scope.mk g.kind (g.fieldsFor table) o.params = scope) {more : List Filter} {r : Record}
    {leaf : Comparison → Except EvalFault Bool}
    (planned : ∀ c ∈ server.comparisons, ∃ p, scope.planTest c = .ok p)
    (agrees : ∀ c ∈ server.comparisons, scope.testHolds r c = leaf c)
    (all : (conjoined server more).holdsBy leaf = .ok true) : g.Satisfies table server r := by
  subst is
  rw [holdsBy_conjoined] at all
  refine sealed.satisfies planned ?_
  rw [← holdsBy_of_allHoldBy all]
  exact holdsBy_congr agrees

/-- A value shows a record: some of its members, the identifiers among them. -/
def Shown (kind : StoreKind) (v : Value) (r : Record) : Prop :=
  ∃ q : Record, v = .object q ∧ q.Sublist r ∧ ∀ name ∈ kind.identifiers, q.get? name = r.get? name

theorem shown_clean (selection : Selection) {kind : StoreKind} {q r : Record} (part : q.Sublist r)
    (same : ∀ name ∈ kind.identifiers, q.get? name = r.get? name) :
    Shown kind (.object (selection.clean kind q)) r := by
  refine ⟨_, rfl, List.filter_sublist.trans part, fun name is => ?_⟩
  rw [selection.get?_clean q is, same name is]

/-- A record is kept under a key of a table, and satisfies a condition. -/
structure Holds (shelf : Shelf σ ρ) (satisfied : Record → Prop) (s : σ) (table : String)
    (key : RecordKey) (r : Record) : Prop where
  stored : ∃ x, shelf.find s table key = some x ∧ shelf.read x = some r
  satisfies : satisfied r

section Entities

variable {g : Gateway EntityTable} {t : EntityTable}

open Entity in
/-- The conditions of the service keep their meaning in the texts that the entity table is asked
for: their values read back and none of their fields is written as a negation is, a field that is
elsewhere in the filter is compared with no call, which might read as a list, and where row keys are
split the conditions compare keys with texts that are not empty. -/
structure KeepsEntities (g : Gateway EntityTable) (table : String) (o : RequestOptions)
    (server : Filter) : Prop where
  faithful : ∀ c ∈ server.comparisons, Faithful (g.entityCompiler table o.params).scope c
  calls : ∀ text f, g.effectiveFilter o = .ok (some text) →
    Filter.parse o.params text = .ok (some f) →
    ∀ c ∈ f.comparisons, c.Negates → c.CallFree
  keys : ∀ text f split, g.effectiveFilter o = .ok (some text) →
    Filter.parse o.params text = .ok (some f) →
    (g.entityCompiler table o.params).oversizedIds f = .ok (some split) →
    ∀ c ∈ server.comparisons, (g.entityCompiler table o.params).TextKeys (.test c) ∧
      ¬ Compiler.NamesPartition (g.entityCompiler table o.params) c ""

theorem mem_queryTexts {limit : Nat} {texts : List String} {records : List Record}
    {after : EntityTable} (backend : g.backend = EntityTable.backend)
    (run : ran (g.queryTexts table limit texts) t = (.ok records, after)) :
    ∀ r ∈ records, ∃ text ∈ texts, ∃ found,
      (ran (EntityTable.query table ⟨text, [], some limit⟩) t).1 = .ok found ∧ r ∈ found := by
  induction texts generalizing records with
  | nil =>
    cases run
    nofun
  | cons text rest ih =>
    obtain ⟨first, others, rfl, queried, later⟩ := queryTexts_cons backend run
    intro r member
    rcases List.mem_append.mp member with member | member
    · exact ⟨text, List.mem_cons_self, first, congrArg Prod.fst queried, member⟩
    · obtain ⟨text', inside, found⟩ := ih later r member
      exact ⟨text', List.mem_cons_of_mem text inside, found⟩

theorem entities_satisfy (backend : g.backend = EntityTable.backend) (sealed : g.Sealed o server)
    (keeps : g.KeepsEntities table o server) {filter : Option String} {texts : List String}
    {found : List Record} {after : EntityTable} (effective : g.effectiveFilter o = .ok filter)
    (compiled : g.entityTexts table o filter = .ok texts)
    (run : ran (g.queryTexts table (g.limit o) texts) t = (.ok found, after)) :
    ∀ r ∈ found, ∃ e ∈ t.entities, e.table = table ∧ e.read = .ok r ∧
      g.Satisfies table server r := by
  have kind : g.kind = .table := by
    rw [Gateway.kind, backend]
    rfl
  obtain ⟨text, more, whole, parsed⟩ := sealed.effective
  rw [whole] at effective
  cases effective
  obtain ⟨pieces, split, rfl⟩ := entityTexts_of_parse kind parsed compiled
  have formed := formed_of_parse parsed
  have inside (c : Comparison) (member : c ∈ server.comparisons) :
      c ∈ (conjoined server more).comparisons := mem_comparisons_conjoined member more
  intro r member
  obtain ⟨text', asked, found', queried, member'⟩ := mem_queryTexts backend run r member
  obtain ⟨filter, reads, entities⟩ := EntityTable.mem_query queried
  obtain ⟨e, there, here, read, kept⟩ := entities r member'
  refine ⟨e, there, here, read, ?_⟩
  have scope : Scope.mk g.kind (g.fieldsFor table) o.params =
      (g.entityCompiler table o.params).scope := by
    rw [kind]
    rfl
  rcases Entity.Compiler.compileChunks_cases split with
    ⟨ids, partition, oversized, rfl⟩ | ⟨-, native, native', rfl⟩
  · -- the text that is asked lists some of the ids; a record that one of them shows is of the
    -- whole list
    have lists := Entity.Compiler.oversizedIds_cases oversized
    simp only [Entity.Compiler.idsFilters, List.map_map, List.mem_map, Function.comp_apply] at asked
    obtain ⟨piece, among, rfl⟩ := asked
    obtain ⟨h, reads', holds⟩ := (Entity.means_keys partition (Entity.mem_chunks among)).parse
    rw [reads'] at reads
    cases reads
    have here := Except.ok.inj ((holds r).symm.trans (kept h rfl))
    have held := (Entity.keysHold_chunks _ _ ids r).mp ⟨piece, among, here⟩
    refine sealed.satisfies_conjoined scope (fun c member => lists.planned c (inside c member))
      (fun c member => ?_) lists.holdsBy_true
    obtain ⟨texts, present⟩ := keeps.keys text _ _ whole parsed oversized c member
    exact lists.testHolds held (inside c member) (formed.each c (inside c member)) texts present
  · cases List.mem_singleton.mp asked
    -- A text with a field that reads as a negation finds nothing, as the table refuses it.
    have other : ¬ (conjoined server more).Negates := fun negates =>
      Entity.Compiler.Emits.refused (.inl native') formed negates
        (keeps.calls text _ whole parsed) filter reads
    obtain ⟨⟨p, planned⟩, h, reads', holds⟩ := Entity.compiled_written native' formed
      fun c inside => Entity.namesField_of_other fun negates => other ⟨c, inside, negates⟩
    rw [reads'] at reads
    cases reads
    have each := formed.planned_each planned
    refine sealed.satisfies_conjoined scope (fun c member => each c (inside c member))
      (fun c member => ?_) ((holds r).symm.trans (kept h rfl))
    obtain ⟨q, plan⟩ := each c (inside c member)
    exact (Entity.writtenHolds_of_faithful rfl (formed.each c (inside c member))
      (keeps.faithful c member) plan r).symm

/-- An answer shows entities that satisfy the conditions. -/
theorem entities_shown (backend : g.backend = EntityTable.backend) (sealed : g.Sealed o server)
    (keeps : g.KeepsEntities table o server) (keyed : t.Keyed) {e : Envelope}
    (retrieved : (ran (g.retrieve table o) t).1 = .ok e) :
    ∀ v ∈ e.resource, ∃ key r, Shown g.kind v r ∧
      Holds EntityTable.shelf (g.Satisfies table server) t table key r := by
  have kind : g.kind = .table := by
    rw [Gateway.kind, backend]
    rfl
  obtain ⟨filter, texts, found, sorted, effective, compiled, run, perm, resource⟩ :=
    retrieve_cases kind (Prod.ext retrieved rfl)
  intro v member
  rw [resource, List.map_map] at member
  obtain ⟨r, inside, rfl⟩ := List.mem_map.mp member
  obtain ⟨x, there, rfl, read, satisfies⟩ := entities_satisfy backend sealed keeps effective compiled
    run r (perm.mem_iff.mp (List.mem_of_mem_take inside))
  refine ⟨.entity x.partition x.row, r, ?_, ⟨x, EntityTable.find_of_mem keyed there, ?_⟩, satisfies⟩
  · rw [kind]
    exact shown_clean _ (List.Sublist.refl r) fun _ _ => rfl
  · rw [show EntityTable.shelf.read x = x.read.toOption from rfl, read]
    rfl

end Entities

section Documents

open DocumentQuery DocumentStore Select

variable {g : Gateway DocumentStore} {s : DocumentStore}

/-- The conditions of the service keep their meaning in the statement that the document store is
asked for: it is read as it was put together, and no two values share a placeholder. -/
structure KeepsDocuments (g : Gateway DocumentStore) (table : String) (o : RequestOptions) :
    Prop where
  unambiguous : g.Unambiguous table o
  distinct : ∀ filter native, g.effectiveFilter o = .ok filter →
    g.compileFilter table o filter = .ok (some native) →
    (native.params.map BoundParam.placeholder).Nodup

theorem answered_ok {α : Type} {ask : List Document → Except DocumentFault α} {a : α}
    (got : answered s table ask = .ok a) :
    checkName table = .ok () ∧ ∃ documents,
      (s.documents table).mapM reread = .ok documents ∧ ask documents = .ok a := by
  unfold answered at got
  cases valid : checkName table with
  | error fault =>
    rw [valid] at got
    cases got
  | ok _ =>
    cases listed : (s.documents table).mapM reread with
    | error fault =>
      rw [valid, listed] at got
      cases got
    | ok documents =>
      rw [valid, listed] at got
      change (ask documents).mapError _ = .ok a at got
      cases asked : ask documents with
      | error fault =>
        rw [asked] at got
        cases got
      | ok b =>
        rw [asked] at got
        cases got
        exact ⟨rfl, documents, rfl, asked⟩

theorem mem_matching {params : Params} {qualifier : Option String} {f : Filter}
    {records found : List Record}
    (matched : matching params qualifier (some f) records = .ok found) :
    ∀ r ∈ found, r ∈ records ∧ f.holds params qualifier r = .ok true := by
  induction records generalizing found with
  | nil =>
    cases matched
    nofun
  | cons first rest ih =>
    obtain ⟨kept, others, holds, more, rfl⟩ := matching_cons_ok matched
    have later (r : Record) (member : r ∈ others) :
        r ∈ first :: rest ∧ f.holds params qualifier r = .ok true :=
      ⟨List.mem_cons_of_mem _ (ih more r member).1, (ih more r member).2⟩
    cases kept with
    | false => exact later
    | true =>
      intro r member
      rcases List.mem_cons.mp member with rfl | member
      · exact ⟨List.mem_cons_self, holds⟩
      · exact later r member

theorem kept_predicateText {native : CompiledFilter} (trimmed : Trimmed native.text.toList) :
    kept (predicateText (some native)) = some native.text := by
  have present : native.text ≠ "" := fun none => trimmed.present (by rw [none]; rfl)
  have shown : predicateText (some native) = some native.text.toList := by
    have nonempty : (!native.isEmpty) = true := by simpa [CompiledFilter.isEmpty] using present
    rw [predicateText, Option.filter_some, nonempty]
    rfl
  rw [shown, kept, Option.map_some, Select.trimmed, trimChars_of_trimmed trimmed,
    String.ofList_toList]
  exact Option.filter_eq_some_iff.mpr ⟨rfl, by simpa⟩

theorem mem_findsBy {collection : String} {native : CompiledFilter} {params : Params}
    {meaning : Record → Except EvalFault Bool}
    (means : Means params (some collection) .or native.text meaning) {records found : List Record}
    (finds : findsBy collection (kept (predicateText (some native))) params records = .ok found) :
    ∀ r ∈ found, r ∈ records ∧ meaning r = .ok true := by
  obtain ⟨h, reads, holds⟩ := means
  have parses := reads.parse
  rw [String.ofList_toList] at parses
  have predicate : predicateOf params (some ⟨none, collection, some native.text, none⟩) =
      .ok (some h) := by
    unfold predicateOf
    simp only [Option.bind_some, parses]
  rw [kept_predicateText reads.trimmed] at finds
  unfold findsBy at finds
  rw [predicate] at finds
  intro r member
  obtain ⟨inside, kept⟩ := mem_matching finds r member
  rw [holds_eq_holdsBy] at kept
  exact ⟨inside, (holds r).symm.trans kept⟩

theorem compileFilter_of_parse {text : String} {f : Filter} {compiled : Option CompiledFilter}
    (parsed : Filter.parse o.params text = .ok (some f))
    (done : g.compileFilter table o (some text) = .ok compiled) :
    ∃ native, compiled = some native ∧ (g.documentCompiler table o.params).compile f = .ok native := by
  have read : Filter.parse (g.documentCompiler table o.params).params text = .ok (some f) := parsed
  unfold compileFilter DocumentQuery.Compiler.compileText at done
  simp only [read] at done
  cases made : (g.documentCompiler table o.params).compile f with
  | error fault =>
    rw [made] at done
    cases done
  | ok native =>
    rw [made] at done
    cases done
    exact ⟨native, rfl, rfl⟩

theorem documents_satisfy (backend : g.backend = DocumentStore.backend)
    (sealed : g.Sealed o server) (keeps : g.KeepsDocuments table o) {filter : Option String}
    {compiled : Option CompiledFilter} (effective : g.effectiveFilter o = .ok filter)
    (done : g.compileFilter table o filter = .ok compiled) (valid : checkName table = .ok ())
    {records found : List Record}
    (finds : findsBy table (kept (predicateText compiled))
      (NativeQuery.paramsByName ⟨"", (compiled.map CompiledFilter.params).getD [], none⟩) records =
        .ok found) :
    ∀ r ∈ found, r ∈ records ∧ g.Satisfies table server r := by
  have kind : g.kind = .document := by
    rw [Gateway.kind, backend]
    rfl
  obtain ⟨text, more, whole, parsed⟩ := sealed.effective
  rw [whole] at effective
  cases effective
  obtain ⟨native, rfl, made⟩ := compileFilter_of_parse parsed done
  have valid' : checkName (g.documentCompiler table o.params).collection = .ok () := valid
  obtain ⟨⟨p, planned⟩, means⟩ := means_compiled valid' parsed made
    (keeps.distinct (some text) native whole done)
  have formed := formed_of_parse parsed
  have scope : Scope.mk g.kind (g.fieldsFor table) o.params =
      Scope.mk .document (g.fieldsFor table) o.params := by rw [kind]
  intro r member
  obtain ⟨inside, all⟩ := mem_findsBy means finds r member
  have each (c : Comparison) (member : c ∈ server.comparisons) :=
    formed.planned_each planned c (mem_comparisons_conjoined member more)
  exact ⟨inside, sealed.satisfies_conjoined scope each (fun _ _ => rfl) all⟩

theorem retrieve_documents_cases (backend : g.backend = DocumentStore.backend) {e : Envelope}
    (retrieved : (ran (g.retrieve table o) s).1 = .ok e) :
    ∃ filter compiled records, g.effectiveFilter o = .ok filter ∧
      g.compileFilter table o filter = .ok compiled ∧
      answered s table (DocumentQuery.run ⟨statement table compiled
        ((o.selection .all).projection .document) o.orderBy,
        (compiled.map CompiledFilter.params).getD [], some (g.limit o)⟩) = .ok records ∧
      e.resource = (records.map ((o.selection .all).clean .document)).map Value.object := by
  rw [ran_retrieve backend] at retrieved
  cases effective : g.effectiveFilter o with
  | error error =>
    rw [effective] at retrieved
    cases retrieved
  | ok filter =>
    rw [effective] at retrieved
    change (g.documentQuery table o (o.selection .all) filter >>= _) = _ at retrieved
    unfold documentQuery at retrieved
    cases done : g.compileFilter table o filter with
    | error error =>
      rw [done] at retrieved
      cases retrieved
    | ok compiled =>
      rw [done] at retrieved
      change (answered s table (DocumentQuery.run _) >>= _) = _ at retrieved
      cases asked : answered s table (DocumentQuery.run ⟨statement table compiled
          ((o.selection .all).projection .document) o.orderBy,
          (compiled.map CompiledFilter.params).getD [], some (g.limit o)⟩) with
      | error error =>
        rw [asked] at retrieved
        cases retrieved
      | ok records =>
        rw [asked] at retrieved
        refine ⟨filter, compiled, records, rfl, done, asked, ?_⟩
        change (if !o.includeCount then _ else if _ then _ else
          answered s table (DocumentQuery.count _) >>= _) = _ at retrieved
        split at retrieved
        · cases retrieved
          rfl
        · split at retrieved
          · cases retrieved
            rfl
          · cases counted : answered s table (DocumentQuery.count ⟨statement table compiled
                ((o.selection .all).projection .document) o.orderBy,
                (compiled.map CompiledFilter.params).getD [], some (g.limit o)⟩) with
            | error error =>
              rw [counted] at retrieved
              cases retrieved
            | ok n =>
              rw [counted] at retrieved
              cases retrieved
              rfl

theorem mem_projected {select : Select} {limit : Option Nat} {found : List Record} {q : Record}
    (member : q ∈ projected (some select) (limited limit (ordered (some select) found))) :
    ∃ r ∈ found, q.Sublist r ∧ identifier q = identifier r := by
  have among {r : Record} (member : r ∈ limited limit (ordered (some select) found)) : r ∈ found := by
    refine (perm_ordered select found).mem_iff.mp ?_
    unfold limited at member
    split at member
    · exact List.mem_of_mem_take member
    · exact member
  unfold projected at member
  split at member
  · next fields _ =>
    obtain ⟨r, inside, rfl⟩ := List.mem_map.mp member
    exact ⟨r, among inside, List.filter_sublist, identifier_project fields r⟩
  · exact ⟨q, among member, List.Sublist.refl q, rfl⟩

/-- An answer shows documents that satisfy the conditions. -/
theorem documents_shown (backend : g.backend = DocumentStore.backend) (sealed : g.Sealed o server)
    (keeps : g.KeepsDocuments table o) (keyed : s.Keyed) {e : Envelope}
    (retrieved : (ran (g.retrieve table o) s).1 = .ok e) :
    ∀ v ∈ e.resource, ∃ key r, Shown g.kind v r ∧
      Holds DocumentStore.shelf (g.Satisfies table server) s table key r := by
  have kind : g.kind = .document := by
    rw [Gateway.kind, backend]
    rfl
  obtain ⟨filter, compiled, records, effective, done, asked, resource⟩ :=
    retrieve_documents_cases backend retrieved
  obtain ⟨valid, documents, listed, ran_⟩ := answered_ok asked
  have same := run_statement valid (keeps.unambiguous filter compiled effective done)
    (fun p predicate => opens_compileFilter valid done predicate)
    ((compiled.map CompiledFilter.params).getD [])
  rw [same] at ran_
  cases finds : findsBy table (kept (predicateText compiled)) (NativeQuery.paramsByName
      ⟨"", (compiled.map CompiledFilter.params).getD [], none⟩) (documents.map Document.toRecord) with
  | error fault =>
    rw [finds] at ran_
    cases ran_
  | ok found =>
    rw [finds] at ran_
    cases ran_
    intro v member
    rw [resource, List.map_map] at member
    obtain ⟨q, inside, rfl⟩ := List.mem_map.mp member
    obtain ⟨r, there, part, alike⟩ := mem_projected inside
    obtain ⟨among, satisfies⟩ := documents_satisfy backend sealed keeps effective done valid finds r
      there
    obtain ⟨d, listed', rfl⟩ := List.mem_map.mp among
    obtain ⟨x, stored, read⟩ := (mapM_ok listed).2 d listed'
    refine ⟨.document x.id, _, ?_, ⟨x, DocumentStore.find_of_mem keyed stored, ?_⟩, satisfies⟩
    · rw [kind]
      refine shown_clean _ part fun name is => ?_
      cases List.mem_singleton.mp is
      exact alike
    · rw [show DocumentStore.shelf.read x = (reread x).toOption.map Document.toRecord from rfl, read]
      rfl

end Documents

end Gateway

end StoreGateway

import StoreGateway.Proofs.ServerConditions

/-! No request by filter shows or changes a record that the conditions of the service leave out. -/

namespace StoreGateway

namespace Gateway

open StoreGateway.Filter

variable {σ ρ : Type} {g : Gateway σ} {shelf : Shelf σ ρ} {table : String} {o : RequestOptions}
  {server : Filter} {s : σ}

/-- A request to a local store in which the conditions of the service keep their meaning. -/
inductive Guards : {σ ρ : Type} → Gateway σ → Shelf σ ρ → String → RequestOptions → Filter → Prop
  | entities {g : Gateway EntityTable} {table : String} {o : RequestOptions} {server : Filter}
    (backend : g.backend = EntityTable.backend) (keeps : g.KeepsEntities table o server) :
    Guards g EntityTable.shelf table o server
  | documents {g : Gateway DocumentStore} {table : String} {o : RequestOptions} {server : Filter}
    (backend : g.backend = DocumentStore.backend) (keeps : g.KeepsDocuments table o) :
    Guards g DocumentStore.shelf table o server

theorem Guards.shelves (guards : Guards g shelf table o server) : g.backend.Shelves shelf := by
  cases guards with
  | entities backend _ =>
    rw [backend]
    exact EntityTable.shelves
  | documents backend _ =>
    rw [backend]
    exact DocumentStore.shelves

theorem Guards.shown (guards : Guards g shelf table o server) (sealed : g.Sealed o server)
    (kept : shelf.kept s) {e : Envelope} (retrieved : (ran (g.retrieve table o) s).1 = .ok e) :
    ∀ v ∈ e.resource, ∃ key r, Shown g.kind v r ∧
      Holds shelf (g.Satisfies table server) s table key r := by
  cases guards with
  | entities backend keeps => exact entities_shown backend sealed keeps kept retrieved
  | documents backend keeps => exact documents_shown backend sealed keeps kept retrieved

theorem store_perform {α : Type} (call : Call σ α) (s : σ) :
    (ran (perform call) s).2 = (ran call s).2 := by
  rw [ran_perform]
  rcases ran call s with ⟨_ | _, after⟩ <;> rfl

theorem queryTexts_same {g : Gateway EntityTable} {t : EntityTable}
    (backend : g.backend = EntityTable.backend) (limit : Nat) (texts : List String) :
    (ran (g.queryTexts table limit texts) t).2 = t := by
  induction texts with
  | nil => rfl
  | cons text rest ih =>
    rw [queryTexts, backend]
    refine ran_bind_keeps (P := (· = t)) ?_ fun first after same => ?_
    · rw [store_perform]
      exact EntityTable.query_same _ _
    · subst same
      exact ran_bind_keeps (P := (· = after)) ih fun _ _ same => same

theorem retrieve_entities_same {g : Gateway EntityTable} (backend : g.backend = EntityTable.backend)
    (o : RequestOptions) (t : EntityTable) : (ran (g.retrieve table o) t).2 = t := by
  have kind : g.kind = .table := by
    rw [Gateway.kind, backend]
    rfl
  change (ran (liftM (g.effectiveFilter o) >>= _) t).2 = t
  rw [ran_bind, ran_lift]
  cases g.effectiveFilter o with
  | error error => rfl
  | ok filter =>
    simp only [kind]
    change (ran (liftM (g.entityTexts table o filter) >>= _) t).2 = t
    rw [ran_bind, ran_lift]
    cases g.entityTexts table o filter with
    | error error => rfl
    | ok texts =>
      change (ran (g.queryTexts table (g.limit o) texts >>= _) t).2 = t
      exact ran_bind_keeps (P := (· = t)) (queryTexts_same backend _ _) fun _ _ same => same

theorem retrieve_documents_same {g : Gateway DocumentStore}
    (backend : g.backend = DocumentStore.backend) (o : RequestOptions) (s : DocumentStore) :
    (ran (g.retrieve table o) s).2 = s :=
  congrArg Prod.snd (ran_retrieve backend)

theorem Guards.retrieve_same (guards : Guards g shelf table o server) (s : σ) :
    (ran (g.retrieve table o) s).2 = s := by
  cases guards with
  | entities backend _ => exact retrieve_entities_same backend _ s
  | documents backend _ => exact retrieve_documents_same backend _ s

/-- What a change by filter reads first: the identifiers of what the filter finds. -/
def forKeys (o : RequestOptions) : RequestOptions :=
  { o with fields := some "", includeCount := false }

theorem Sealed.forKeys (sealed : g.Sealed o server) : g.Sealed (forKeys o) server :=
  ⟨sealed.conditions, sealed.unbound, sealed.caller⟩

theorem store_run (e : Executor σ) (ops : List Operation) (s : σ) :
    (ran (Gateway.run e ops) s).2 = (ran (e.execute ops) ⟨s, .idle⟩).2.store := by
  unfold Gateway.run
  rw [ran_bind_ok (ran_get s)]
  rcases ended : (e.execute ops).run.run ⟨s, .idle⟩ with ⟨outcome, progress⟩
  rw [show ran (e.execute ops) ⟨s, .idle⟩ = (outcome, progress) from ended]
  rw [ran_bind_ok (ran_set progress.store s)]
  cases outcome <;> rfl

theorem mem_keysOfShown {resource : List Value} {keys : List RecordKey}
    (shown : g.keysOfShown resource = .ok keys) {key : RecordKey} (member : key ∈ keys) :
    ∃ v ∈ resource, ∃ q, v.object? = some q ∧ g.kind.keyOf q none = .ok key := by
  unfold keysOfShown at shown
  cases each : resource.mapM g.keyOfShown with
  | error error =>
    rw [each] at shown
    cases shown
  | ok found =>
    rw [each] at shown
    cases shown
    obtain ⟨key', inside, same⟩ := List.mem_filterMap.mp member
    cases same
    obtain ⟨v, there, key⟩ := (mapM_ok each).2 _ inside
    refine ⟨v, there, ?_⟩
    unfold keyOfShown at key
    cases object : v.object? with
    | none =>
      rw [object] at key
      cases key
    | some q =>
      simp only [object] at key
      cases tells : g.kind.keyOf q none with
      | error fault =>
        rw [tells] at key
        cases key
      | ok key' =>
        rw [tells] at key
        cases key
        exact ⟨q, rfl, tells⟩

theorem plain_entity {p row : String} (partition : p ≠ "") (named : row ≠ "") :
    Executor.Plain .table (.entity p row) := by
  have first : (RecordKey.entity p row).toRecord.get? partitionKey = some (.string p) := rfl
  have second : (RecordKey.entity p row).toRecord.get? rowKey = some (.string row) := rfl
  unfold Executor.Plain
  simp [StoreKind.keyOf, Record.keyText?, first, second, Value.keyText?, Option.filter, partition,
    named]

theorem plain_document {id : String} (named : id ≠ "") :
    Executor.Plain .document (.document id) := by
  have only : (RecordKey.document id).toRecord.get? documentId = some (.string id) := rfl
  unfold Executor.Plain
  simp [StoreKind.keyOf, Record.keyText?, only, Value.keyText?, Option.filter, named]

theorem plain_of_keyOf {kind : StoreKind} {r : Record} {key : RecordKey}
    (tells : kind.keyOf r none = .ok key) : Executor.Plain kind key := by
  have present {text : Option String} {part : String}
      (is : text.filter (· ≠ "") = some part) : part ≠ "" := by
    simpa using (Option.filter_eq_some_iff.mp is).2
  cases kind with
  | table =>
    simp only [StoreKind.keyOf] at tells
    split at tells
    · cases tells
    · next p partition =>
      split at tells
      · cases tells
      · next row' row =>
        cases tells
        exact plain_entity (present partition) (present row)
  | document =>
    simp only [StoreKind.keyOf] at tells
    split at tells
    · cases tells
    · next id named =>
      cases tells
      exact plain_document (present named)

theorem mutateFilter_cases (verb : Verb) (record : Option Record)
    (same : (ran (g.retrieve table (forKeys o)) s).2 = s) :
    (ran (g.mutateFilter table verb record o) s).2 = s ∨
      ∃ e keys, (ran (g.retrieve table (forKeys o)) s).1 = .ok e ∧
        g.keysOfShown e.resource = .ok keys ∧
        (ran (g.mutateFilter table verb record o) s).2 =
          (ran ((g.executor table { o with partition := none } .idsOnly).execute
            (Operation.ofKeys verb keys record)) ⟨s, .idle⟩).2.store := by
  unfold mutateFilter
  by_cases whole : verb = .delete ∧ o.filterText = none
  · rw [if_pos whole]
    exact .inl rfl
  · rw [if_neg whole]
    change (ran (g.retrieve table (forKeys o) >>= _) s).2 = s ∨ ∃ e keys, _ ∧ _ ∧
      (ran (g.retrieve table (forKeys o) >>= _) s).2 = _
    cases retrieved : (ran (g.retrieve table (forKeys o)) s).1 with
    | error error =>
      rw [ran_bind_error (Prod.ext retrieved same)]
      exact .inl rfl
    | ok e =>
      rw [ran_bind_ok (Prod.ext retrieved same)]
      change (ran (liftM (g.keysOfShown e.resource) >>= _) s).2 = s ∨ ∃ e' keys, _ ∧ _ ∧
        (ran (liftM (g.keysOfShown e.resource) >>= _) s).2 = _
      rw [ran_bind, ran_lift]
      cases shown : g.keysOfShown e.resource with
      | error error => exact .inl rfl
      | ok keys =>
        cases none : keys.isEmpty with
        | true =>
          simp only [none]
          exact .inl rfl
        | false =>
          refine .inr ⟨e, keys, rfl, shown, ?_⟩
          simp only [none]
          exact store_run _ _ s

theorem confined_ofKeys (shelves : g.backend.Shelves shelf) (kept : shelf.kept s)
    {keys : List RecordKey} (plain : ∀ key ∈ keys, Executor.Plain g.kind key) (verb : Verb)
    (record : Option Record) (o : RequestOptions) :
    shelf.Confined table (· ∈ keys) s
      (ran ((g.executor table o .idsOnly).execute (Operation.ofKeys verb keys record))
        ⟨s, .idle⟩).2.store := by
  refine Executor.confined_execute (e := g.executor table o .idsOnly) (p := ⟨s, .idle⟩) shelves rfl
    plain ?_ kept
  intro i member item prepared
  obtain ⟨op, inside, rfl⟩ := List.mem_map.mp member
  exact Executor.addresses_ofKeys plain inside prepared

/-- A change by filter changes records with the keys of what was read, and no others. -/
theorem confined_mutateFilter (shelves : g.backend.Shelves shelf) (kept : shelf.kept s)
    (verb : Verb) (record : Option Record) (same : (ran (g.retrieve table (forKeys o)) s).2 = s) :
    ∃ keys : List RecordKey, shelf.Confined table (· ∈ keys) s
        (ran (g.mutateFilter table verb record o) s).2 ∧
      (keys ≠ [] → ∃ e, (ran (g.retrieve table (forKeys o)) s).1 = .ok e ∧
        g.keysOfShown e.resource = .ok keys) := by
  rcases mutateFilter_cases verb record same with unchanged | ⟨e, keys, retrieved, shown, after⟩
  · rw [unchanged]
    exact ⟨[], Shelf.confined_refl kept, fun some => absurd rfl some⟩
  · refine ⟨keys, ?_, fun _ => ⟨e, retrieved, shown⟩⟩
    rw [after]
    refine confined_ofKeys shelves kept (fun key member => ?_) verb record { o with partition := none }
    obtain ⟨v, -, q, -, tells⟩ := mem_keysOfShown shown member
    exact plain_of_keyOf tells

/-- What a request shows, and what changes by its filter change, are records that are there and
satisfy a condition. -/
structure Guarded (g : Gateway σ) (shelf : Shelf σ ρ) (table : String) (o : RequestOptions)
    (satisfied : Record → Prop) (s : σ) : Prop where
  shown : ∀ e, (ran (g.retrieve table o) s).1 = .ok e →
    ∀ v ∈ e.resource, ∃ key r, Shown g.kind v r ∧ Holds shelf satisfied s table key r
  changed : ∀ verb record name key,
    shelf.find (ran (g.mutateFilter table verb record o) s).2 name key ≠ shelf.find s name key →
    name = table ∧ ∃ r, Holds shelf satisfied s table key r

/-- No request by filter gets around the conditions of the service, in either way to take them, as
long as the filter of the caller is one by itself and the store's own language keeps the meaning of the
conditions. -/
theorem server_conditions_kept {satisfied : Record → Prop} (takes : g.Takes table server satisfied)
    (sealed : g.Sealed o server) (guards : Guards g shelf table o server)
    (guards' : Guards g shelf table (forKeys o) server) (kept : shelf.kept s) :
    g.Guarded shelf table o satisfied s := by
  refine ⟨fun e retrieved v member => ?_, ?_⟩
  · obtain ⟨key, r, shown, holds⟩ := guards.shown sealed kept retrieved v member
    exact ⟨key, r, shown, holds.stored, takes.satisfied holds.satisfies⟩
  intro verb record name key changed
  obtain ⟨keys, confined, read⟩ :=
    confined_mutateFilter guards'.shelves kept verb record (guards'.retrieve_same s)
  by_cases inside : name = table ∧ key ∈ keys
  · obtain ⟨here, member⟩ := inside
    obtain ⟨e, retrieved, shown⟩ := read (List.ne_nil_of_mem member)
    obtain ⟨v, there, q, object, tells⟩ := mem_keysOfShown shown member
    obtain ⟨key', r, ⟨q', rfl, -, same⟩, holds⟩ :=
      guards'.shown sealed.forKeys kept retrieved v there
    cases object
    rw [Executor.keyOf_congr none same] at tells
    obtain ⟨x, found, stored⟩ := holds.stored
    have is := guards'.shelves.key_was ⟨s, x, kept, found, stored⟩ tells
    exact ⟨here, r, is ▸ holds.stored, takes.satisfied holds.satisfies⟩
  · exact absurd (confined.same name key inside) changed

def owned (backend : Backend σ) : Gateway σ :=
  (Gateway.new backend).withServerFilters ⟨"and", [⟨"owner", "=", .string "me"⟩]⟩

def ownedByMe : Filter := .test ⟨"owner", .compare .eq, .literal "'me'", false⟩

theorem serverClause_owned (backend : Backend σ) :
    (owned backend).serverClause = .ok (some "owner = 'me'") := rfl

theorem parse_owned : Filter.parse [] "owner = 'me'" = .ok (some ownedByMe) := by decide +kernel

theorem parse_owned_atLeastOne : Filter.parse [] "(owner = 'me') AND (v >= 1)" =
    .ok (some (.combine .and [ownedByMe, .test ⟨"v", .compare .ge, .literal "1", false⟩])) := by
  decide +kernel

theorem sealed_owned (backend : Backend σ) (fields : Option String) :
    (owned backend).Sealed { atLeastOne with fields := fields } ownedByMe where
  conditions := ⟨_, serverClause_owned backend, parse_owned, parse_owned⟩
  unbound _ _ _ _ := rfl
  caller := by
    have parsed : Filter.parse [] (Text.trim "v >= 1") =
        .ok (some (.test ⟨"v", .compare .ge, .literal "1", false⟩)) := by
      decide +kernel
    rintro _ ⟨⟩
    exact ⟨_, parsed⟩

theorem keepsEntities_owned (fields : Option String) :
    (owned EntityTable.backend).KeepsEntities "t" { atLeastOne with fields := fields } ownedByMe := by
  refine ⟨fun c member => ?_, fun text f effective parsed c member => ?_, ?_⟩
  · cases List.mem_singleton.mp member
    refine ⟨Entity.namesField_of_other (by decide), fun field resolved o single v coerced => ?_, nofun⟩
    cases resolved
    cases List.mem_singleton.mp single
    cases coerced
    exact trivial
  · cases effective
    cases parse_owned_atLeastOne.symm.trans parsed
    have either : c ∈ [_, _] := member
    simp only [List.mem_cons, List.not_mem_nil, or_false] at either
    rcases either with rfl | rfl
    · exact fun negates => absurd negates (by decide)
    · exact fun negates => absurd negates (by decide)
  · intro text f split effective parsed oversized
    cases effective
    cases parse_owned_atLeastOne.symm.trans parsed
    cases oversized

theorem keepsDocuments_owned (fields : Option String)
    (clear : DocumentQuery.Unambiguous "t" (some ⟨"t.owner = @owner1 AND t.v >= @v1",
      [⟨"@owner1", .string "me"⟩, ⟨"@v1", .int 1⟩]⟩)
      (({ atLeastOne with fields := fields }.selection .all).projection .document) none) :
    (owned DocumentStore.backend).KeepsDocuments "t" { atLeastOne with fields := fields } := by
  have native : DocumentQuery.Compiler.compileText ⟨"t", FieldMap.openFor .document, []⟩
      "(owner = 'me') AND (v >= 1)" = .ok (some ⟨"t.owner = @owner1 AND t.v >= @v1",
        [⟨"@owner1", .string "me"⟩, ⟨"@v1", .int 1⟩]⟩) := by
    unfold DocumentQuery.Compiler.compileText
    simp only [parse_owned_atLeastOne]
    rfl
  have made {filter : Option String} {compiled : Option CompiledFilter}
      (effective : (owned DocumentStore.backend).effectiveFilter
        { atLeastOne with fields := fields } = .ok filter)
      (done : (owned DocumentStore.backend).compileFilter "t"
        { atLeastOne with fields := fields } filter = .ok compiled) :
      compiled = some ⟨"t.owner = @owner1 AND t.v >= @v1",
        [⟨"@owner1", .string "me"⟩, ⟨"@v1", .int 1⟩]⟩ := by
    cases effective
    change compileRequest (DocumentQuery.Compiler.compileText ⟨"t", FieldMap.openFor .document, []⟩
      "(owner = 'me') AND (v >= 1)") = .ok compiled at done
    rw [native] at done
    cases done
    rfl
  refine ⟨fun filter compiled effective done => ?_, fun filter compiled effective done => ?_⟩
  · rw [made effective done]
    exact clear
  · cases made effective done
    decide

def twoOwners : DocumentStore :=
  ⟨[⟨"t", [⟨"a", "", [("owner", .string "me"), ("v", .int 1)]⟩,
    ⟨"b", "", [("owner", .string "you"), ("v", .int 1)]⟩]⟩], ⟨0, 0⟩⟩

theorem keyed_twoOwners : twoOwners.Keyed := by
  refine ⟨List.pairwise_singleton _ _, fun c member => ?_⟩
  cases List.mem_singleton.mp member
  exact ⟨by decide, by decide, by decide⟩

def twoOwnersTable : EntityTable :=
  ⟨[⟨"t", "P", "a", [("owner", .string "me"), ("v", .int 1)], ""⟩,
    ⟨"t", "P", "b", [("owner", .string "you"), ("v", .int 1)], ""⟩], 100, ⟨0, 0⟩⟩

theorem keyed_twoOwnersTable : twoOwnersTable.Keyed :=
  ⟨by decide, by decide⟩

theorem leaves_ownedByMe (backend : Backend σ) :
    ∀ c ∈ ownedByMe.comparisons, ((owned backend).scope "t").Leaves c := by
  intro c member
  cases List.mem_singleton.mp member
  have open_ {field : Field} (resolved : ((owned backend).scope "t").resolve "owner" = .ok field) :
      field.name = "owner" ∧ field.type = .any := by
    have kind : (owned backend).scope "t" = ⟨backend.kind, FieldMap.openFor backend.kind, []⟩ := rfl
    rw [kind] at resolved
    cases is : backend.kind with
    | table =>
      rw [is] at resolved
      cases resolved
      exact ⟨rfl, rfl⟩
    | document =>
      rw [is] at resolved
      cases resolved
      exact ⟨rfl, rfl⟩
  refine ⟨fun field resolved => (open_ resolved).1, fun field resolved raw single => ?_, nofun⟩
  cases List.mem_singleton.mp single
  unfold conform
  rw [(open_ resolved).2]

/-- In neither store is the other owner's record shown or deleted. -/
theorem server_conditions_kept_of_two :
    (((owned DocumentStore.backend).Guarded DocumentStore.shelf "t" atLeastOne
        (fun r => ownedByMe.holdsBy (((owned DocumentStore.backend).scope "t").testHolds r) = .ok true)
        twoOwners ∧
      (owned DocumentStore.backend).Guarded DocumentStore.shelf "t" atLeastOne
        (fun r => ownedByMe.holds [] none r = .ok true) twoOwners) ∧
      (ran ((owned DocumentStore.backend).retrieve "t" atLeastOne) twoOwners).1.toOption.map
        (fun e => e.resource.length) = some 1 ∧
      ((ran ((owned DocumentStore.backend).mutateFilter "t" .delete none atLeastOne)
        twoOwners).2.documents "t").map Document.id = ["b"]) ∧
    ((owned EntityTable.backend).Guarded EntityTable.shelf "t" atLeastOne
        (fun r => ownedByMe.holdsBy (((owned EntityTable.backend).scope "t").testHolds r) = .ok true)
        twoOwnersTable ∧
      (owned EntityTable.backend).Guarded EntityTable.shelf "t" atLeastOne
        (fun r => ownedByMe.holds [] none r = .ok true) twoOwnersTable) ∧
      (ran ((owned EntityTable.backend).retrieve "t" atLeastOne) twoOwnersTable).1.toOption.map
        (fun e => e.resource.length) = some 1 ∧
      (ran ((owned EntityTable.backend).mutateFilter "t" .delete none atLeastOne)
        twoOwnersTable).2.entities.map Entity.row = ["b"] := by
  have documents {satisfied : Record → Prop}
      (takes : (owned DocumentStore.backend).Takes "t" ownedByMe satisfied) :=
    server_conditions_kept takes (sealed_owned _ none)
      (.documents rfl (keepsDocuments_owned none (by decide)))
      (.documents rfl (keepsDocuments_owned (some "") (by decide))) keyed_twoOwners
  have entities {satisfied : Record → Prop}
      (takes : (owned EntityTable.backend).Takes "t" ownedByMe satisfied) :=
    server_conditions_kept takes (sealed_owned _ none) (.entities rfl (keepsEntities_owned none))
      (.entities rfl (keepsEntities_owned (some ""))) keyed_twoOwnersTable
  exact ⟨⟨⟨documents .declared, documents (.written (leaves_ownedByMe _))⟩, by decide +kernel,
      by decide +kernel⟩,
    ⟨entities .declared, entities (.written (leaves_ownedByMe _))⟩, by decide +kernel,
    by decide +kernel⟩

/-- A filter that is none by itself closes the parenthesis that it is put in: the other owner's
document is shown, and deleted. -/
theorem conditions_escaped :
    (owned DocumentStore.backend).serverClause = .ok (some "owner = 'me'") ∧
    Filter.parse [] "owner = 'me'" = .ok (some ownedByMe) ∧ twoOwners.Keyed ∧
    (ran ((owned DocumentStore.backend).retrieve "t"
      { RequestOptions.none with filter := some "v = 1) or (v = 1" }) twoOwners).1.toOption.map
        (fun e => e.resource.length) = some 2 ∧
    ¬ (owned DocumentStore.backend).Guarded DocumentStore.shelf "t"
      { RequestOptions.none with filter := some "v = 1) or (v = 1" }
      (fun r => ownedByMe.holds [] none r = .ok true) twoOwners := by
  refine ⟨serverClause_owned _, parse_owned, keyed_twoOwners, by decide +kernel, fun guarded => ?_⟩
  have gone : (DocumentStore.shelf.find
      (ran ((owned DocumentStore.backend).mutateFilter "t" .delete none
        { RequestOptions.none with filter := some "v = 1) or (v = 1" }) twoOwners).2
      "t" (.document "b")).isNone = true := by
    decide +kernel
  have there : DocumentStore.shelf.find twoOwners "t" (.document "b") =
      some ⟨"b", "", [("owner", .string "you"), ("v", .int 1)]⟩ := rfl
  obtain ⟨-, r, ⟨x, found, read⟩, satisfies⟩ :=
    guarded.changed .delete none "t" (.document "b") fun same => by
      rw [same, there] at gone
      cases gone
  rw [there] at found
  cases found
  cases read
  have fails : ownedByMe.holds [] none
      (Document.toRecord ⟨"b", "", [("owner", .string "you"), ("v", .int 1)]⟩) = .ok false := rfl
  cases fails.symm.trans satisfies

end Gateway

end StoreGateway

import StoreGateway.Document.Store
import StoreGateway.Proofs.OrderedRecords
import StoreGateway.Proofs.Records
import StoreGateway.Proofs.Undo

/-! What the calls of the document store do to the documents kept. -/

namespace StoreGateway

namespace Document

abbrev Properties (q : Record) : Prop := Record.Stored isProperty q

abbrev Shown (q : Record) : Prop := Record.Shown isProperty q

theorem propertiesOf_toRecord (d : Document) (ordered : d.properties.Ordered)
    (own : ∀ m ∈ d.properties, isProperty m.1 = true) :
    propertiesOf d.toRecord = d.properties := by
  refine Record.filter_extend (List.pairwise_singleton _ _) ordered ?_ own
  intro m member
  rw [List.mem_singleton.mp member]
  rfl

theorem get?_toRecord (d : Document) (own : ∀ m ∈ d.properties, isProperty m.1 = true) :
    d.toRecord.get? documentId = some (.string d.id) := by
  have absent : ∀ m ∈ d.properties, m.1 ≠ documentId := by
    intro m member same
    have is := own m member
    rw [same] at is
    cases is
  rw [toRecord, Record.get?_extend_of_not_mem _ _ _ absent]
  rfl

theorem keyOf_toRecord {d : Document} (own : ∀ m ∈ d.properties, isProperty m.1 = true)
    (present : d.id ≠ "") : StoreKind.document.keyOf d.toRecord none = .ok (.document d.id) := by
  simp [StoreKind.keyOf, Record.keyText?, get?_toRecord d own, Value.keyText?, present,
    Option.filter]

theorem merge_id (d : Document) (r : Record) (stamp : String) : (d.merge r stamp).id = d.id := rfl

end Document

namespace DocumentStore

/-- The properties of all documents by key. -/
def contents (s : DocumentStore) : Contents := fun name key =>
  match key with
  | .document id => (s.document? name id).bind fun d => (Json.rereadRecord d.properties).toOption
  | .entity _ _ => none

/-- Names and identifiers that a document can be written under. -/
structure Addresses (name id : String) : Prop where
  valid_name : checkName name = .ok ()
  valid_id : checkId id = .ok ()
  short_name : ¬ maxNameBytes < name.utf8ByteSize
  short_id : ¬ maxNameBytes < (id ++ ".json").utf8ByteSize

/-- Collections in order, of documents that can be addressed, with properties as they are stored. -/
structure Sound (s : DocumentStore) : Prop where
  sorted : s.collections.Pairwise fun c d => c.name < d.name
  documents : ∀ c ∈ s.collections, ∀ d ∈ c.documents,
    Document.Properties d.properties ∧ Addresses c.name d.id

def keeping : Keeping DocumentStore where
  sound := Sound
  view := contents
  fits r := r.Ordered ∧ r.Settled
  addresses name key := ∃ id, key = .document id ∧ Addresses name id
  returns _ := True
  shows key prior q :=
    Document.Shown q ∧ ∃ d : Document, key = .document d.id ∧ d.properties = q ∧ prior = d.toRecord

theorem find?_updateIn {name : String} {change : List Document → List Document}
    {cs : List Collection} (sorted : cs.Pairwise fun c d => c.name < d.name) (other : String) :
    ((updateIn name change cs).find? (·.name == other)) =
      if other = name then
        some ⟨name, change (((cs.find? (·.name == name)).map Collection.documents).getD [])⟩
      else cs.find? (·.name == other) := by
  induction cs with
  | nil =>
    rw [updateIn, List.find?_cons]
    by_cases same : other = name
    · rw [if_pos same, same, beq_self_eq_true]
      rfl
    · rw [if_neg same, beq_false_of_ne (Ne.symm same)]
  | cons c rest ih =>
    have split := List.pairwise_cons.mp sorted
    rw [updateIn]
    by_cases here : c.name = name
    · rw [if_pos here, List.find?_cons, List.find?_cons, List.find?_cons, here, beq_self_eq_true]
      by_cases same : other = name
      · rw [if_pos same, same, beq_self_eq_true]
        rfl
      · rw [if_neg same, beq_false_of_ne (Ne.symm same)]
    · rw [if_neg here]
      by_cases before : name < c.name
      · have absent : ∀ d ∈ c :: rest, (d.name == name) = false := by
          intro d member
          refine beq_false_of_ne fun same => ?_
          rcases List.mem_cons.mp member with rfl | member
          · exact here same
          · have after := String.lt_trans before (split.1 d member)
            rw [same] at after
            exact String.lt_irrefl name after
        have gone : (c :: rest).find? (·.name == name) = none :=
          List.find?_eq_none.mpr fun d member => Bool.eq_false_iff.mp (absent d member)
        rw [if_pos before, List.find?_cons, gone]
        by_cases same : other = name
        · rw [if_pos same, same, beq_self_eq_true]
          rfl
        · rw [if_neg same, beq_false_of_ne (Ne.symm same)]
      · rw [if_neg before, List.find?_cons, ih split.2, List.find?_cons, List.find?_cons,
          beq_false_of_ne here]
        by_cases same : other = name
        · rw [if_pos same, if_pos same, same, beq_false_of_ne here]
        · rw [if_neg same, if_neg same]

theorem mem_updateIn {name : String} {change : List Document → List Document}
    {cs : List Collection} {c : Collection} (member : c ∈ updateIn name change cs) :
    c ∈ cs ∨ (c.name = name ∧ (c.documents = change [] ∨ ∃ d ∈ cs, d.name = name ∧
      c.documents = change d.documents)) := by
  induction cs with
  | nil =>
    rw [List.mem_singleton.mp member]
    exact .inr ⟨rfl, .inl rfl⟩
  | cons first rest ih =>
    rw [updateIn] at member
    split at member
    · next here =>
      rcases List.mem_cons.mp member with rfl | member
      · exact .inr ⟨rfl, .inr ⟨first, List.mem_cons_self, here, rfl⟩⟩
      · exact .inl (List.mem_cons_of_mem first member)
    · split at member
      · rcases List.mem_cons.mp member with rfl | member
        · exact .inr ⟨rfl, .inl rfl⟩
        · exact .inl member
      · rcases List.mem_cons.mp member with rfl | member
        · exact .inl List.mem_cons_self
        · rcases ih member with inside | ⟨named, new | ⟨d, inside, named', changed⟩⟩
          · exact .inl (List.mem_cons_of_mem first inside)
          · exact .inr ⟨named, .inl new⟩
          · exact .inr ⟨named, .inr ⟨d, List.mem_cons_of_mem first inside, named', changed⟩⟩

theorem sorted_updateIn {name : String} {change : List Document → List Document}
    {cs : List Collection} (sorted : cs.Pairwise fun c d => c.name < d.name) :
    (updateIn name change cs).Pairwise fun c d => c.name < d.name := by
  induction cs with
  | nil => exact List.pairwise_singleton _ _
  | cons first rest ih =>
    have split := List.pairwise_cons.mp sorted
    rw [updateIn]
    by_cases here : first.name = name
    · rw [if_pos here]
      refine List.pairwise_cons.mpr ⟨fun d member => ?_, split.2⟩
      rw [← here]
      exact split.1 d member
    · rw [if_neg here]
      by_cases before : name < first.name
      · rw [if_pos before]
        refine List.pairwise_cons.mpr ⟨fun d member => ?_, sorted⟩
        rcases List.mem_cons.mp member with rfl | member
        · exact before
        · exact String.lt_trans before (split.1 d member)
      · rw [if_neg before]
        refine List.pairwise_cons.mpr ⟨fun d member => ?_, ih split.2⟩
        rcases mem_updateIn member with inside | ⟨named, -⟩
        · exact split.1 d inside
        · rw [named]
          exact Record.lt_of_not (Ne.symm here) before

variable {s s' : DocumentStore} {name : String} {r : Record}

theorem documents_updateIn (sorted : s.collections.Pairwise fun c d => c.name < d.name)
    (change : List Document → List Document) (supply : Supply) (other : String) :
    documents ⟨updateIn name change s.collections, supply⟩ other =
      if other = name then change (s.documents name) else s.documents other := by
  unfold documents collection?
  rw [find?_updateIn sorted]
  by_cases same : other = name
  · rw [if_pos same, if_pos same]
    rfl
  · rw [if_neg same, if_neg same]

theorem contents_updateIn (sorted : s.collections.Pairwise fun c d => c.name < d.name)
    (change : List Document → List Document) (supply : Supply) (other id : String) :
    contents ⟨updateIn name change s.collections, supply⟩ other (.document id) =
      if other = name then ((change (s.documents name)).find? (·.id == id)).bind fun d =>
        (Json.rereadRecord d.properties).toOption
      else s.contents other (.document id) := by
  change (List.find? _ (documents ⟨updateIn name change s.collections, supply⟩ other)).bind _ = _
  rw [documents_updateIn sorted]
  by_cases here : other = name
  · rw [if_pos here, if_pos here]
  · rw [if_neg here, if_neg here]
    rfl

/-- Changing the documents of one collection keeps a store sound, if each that is there afterwards
may be there. -/
theorem Sound.updateIn (sound : s.Sound) {change : List Document → List Document} (supply : Supply)
    (kept : ∀ ds : List Document,
      (∀ d ∈ ds, Document.Properties d.properties ∧ Addresses name d.id) →
      ∀ d ∈ change ds, Document.Properties d.properties ∧ Addresses name d.id) :
    Sound ⟨DocumentStore.updateIn name change s.collections, supply⟩ := by
  refine ⟨sorted_updateIn sound.sorted, fun c member => ?_⟩
  rcases mem_updateIn member with inside | ⟨named, new | ⟨c', inside, named', changed⟩⟩
  · exact sound.documents c inside
  · rw [new, named]
    exact kept [] nofun
  · rw [changed, named]
    refine kept c'.documents fun d there => ?_
    rw [← named']
    exact sound.documents c' inside d there

theorem find?_placeDocument (d : Document) (ds : List Document) (other : String) :
    (placeDocument d ds).find? (·.id == other) =
      if other = d.id then some d else ds.find? (·.id == other) := by
  induction ds with
  | nil =>
    rw [placeDocument, List.find?_cons]
    by_cases same : other = d.id
    · rw [if_pos same, same, beq_self_eq_true]
    · rw [if_neg same, beq_false_of_ne (Ne.symm same)]
  | cons e rest ih =>
    rw [placeDocument]
    by_cases here : e.id = d.id
    · rw [if_pos here, List.find?_cons, List.find?_cons, here]
      by_cases same : other = d.id
      · rw [if_pos same, same, beq_self_eq_true]
      · rw [if_neg same, beq_false_of_ne (Ne.symm same)]
    · rw [if_neg here]
      by_cases before : d.id < e.id
      · rw [if_pos before, List.find?_cons]
        by_cases same : other = d.id
        · rw [if_pos same, same, beq_self_eq_true]
        · rw [if_neg same, beq_false_of_ne (Ne.symm same)]
      · rw [if_neg before, List.find?_cons, ih, List.find?_cons]
        by_cases same : other = d.id
        · rw [if_pos same, if_pos same, same, beq_false_of_ne here]
        · rw [if_neg same, if_neg same]

theorem mem_placeDocument {d e : Document} {ds : List Document} (member : e ∈ placeDocument d ds) :
    e = d ∨ e ∈ ds := by
  induction ds with
  | nil => exact .inl (List.mem_singleton.mp member)
  | cons first rest ih =>
    rw [placeDocument] at member
    split at member
    · rcases List.mem_cons.mp member with same | member
      · exact .inl same
      · exact .inr (List.mem_cons_of_mem first member)
    · split at member
      · exact List.mem_cons.mp member
      · rcases List.mem_cons.mp member with same | member
        · rw [same]
          exact .inr List.mem_cons_self
        · rcases ih member with same | inside
          · exact .inl same
          · exact .inr (List.mem_cons_of_mem first inside)

/-- A change of the documents of one collection sets the properties of one identifier, if it is a
change to that document alone. -/
theorem sets_updateIn {change : List Document → List Document} {supply : Supply} {id : String}
    {q : Option Record} (sorted : s.collections.Pairwise fun c d => c.name < d.name)
    (sound : Sound ⟨updateIn name change s.collections, supply⟩)
    (here : ((change (s.documents name)).find? (·.id == id)).bind
      (fun d => (Json.rereadRecord d.properties).toOption) = q)
    (others : ∀ id', id' ≠ id →
      (change (s.documents name)).find? (·.id == id') = (s.documents name).find? (·.id == id')) :
    keeping.Sets name (.document id) q s ⟨updateIn name change s.collections, supply⟩ := by
  refine ⟨sound, ?_⟩
  funext other key
  cases key with
  | entity partition row => simp [keeping, contents, Contents.set]
  | document id' =>
    change contents _ other (.document id') =
      Contents.set s.contents name (.document id) q other (.document id')
    rw [contents_updateIn sorted]
    by_cases same : other = name
    · subst same
      rw [if_pos rfl]
      by_cases is : id' = id
      · rw [is, Contents.set_here, here]
      · have different : RecordKey.document id' ≠ .document id := fun equal =>
          is (RecordKey.document.inj equal)
        rw [others id' is, Contents.set_other _ _ _ different]
        rfl
    · have elsewhere : ¬ (other = name ∧ RecordKey.document id' = .document id) := fun both =>
        same both.1
      rw [if_neg same]
      simp only [Contents.set, if_neg elsewhere]

/-- Putting a document in its place sets its properties and no others. -/
theorem sets_place (sound : s.Sound) {d : Document} (addresses : Addresses name d.id)
    (stored : Document.Properties d.properties) (supply : Supply) {q : Record}
    (read : Json.rereadRecord d.properties = .ok q) :
    keeping.Sets name (.document d.id) (some q) s
      ⟨updateIn name (placeDocument d) s.collections, supply⟩ := by
  refine sets_updateIn sound.sorted (sound.updateIn supply fun ds all e member => ?_) ?_ ?_
  · rcases mem_placeDocument member with rfl | inside
    · exact ⟨stored, addresses⟩
    · exact all e inside
  · rw [find?_placeDocument, if_pos rfl]
    exact congrArg Except.toOption read
  · intro other different
    rw [find?_placeDocument, if_neg different]

theorem sets_filter (sound : s.Sound) (name id : String) :
    keeping.Sets name (.document id) none s
      ⟨updateIn name (fun documents => documents.filter (·.id != id)) s.collections, s.supply⟩ := by
  refine sets_updateIn sound.sorted
    (sound.updateIn s.supply fun ds all e member => all e (List.mem_filter.mp member).1) ?_ ?_
  · have gone : (s.documents name).find?
        (fun d => decide ((d.id != id) = true ∧ (d.id == id) = true)) = none := by
      simp
    rw [List.find?_filter, gone]
    rfl
  · intro other different
    have kept : (fun d : Document => decide ((d.id != id) = true ∧ (d.id == other) = true)) =
        fun d => d.id == other := by
      funext d
      by_cases is : d.id = other
      · simp [is, different]
      · simp [is]
    rw [List.find?_filter, kept]

theorem unchanged_touch (sound : s.Sound) (name : String) (supply : Supply) :
    keeping.Unchanged s ⟨updateIn name id s.collections, supply⟩ := by
  refine ⟨sound.updateIn supply fun ds all => all, ?_⟩
  funext other key
  cases key with
  | entity partition row => rfl
  | document id =>
    change contents ⟨updateIn name _ s.collections, supply⟩ other (.document id) = _
    rw [contents_updateIn sound.sorted]
    by_cases here : other = name
    · rw [if_pos here, here]
      rfl
    · rw [if_neg here]
      rfl

theorem unchanged_supply (sound : s.Sound) (supply : Supply) :
    keeping.Unchanged s { s with supply := supply } :=
  ⟨⟨sound.sorted, sound.documents⟩, rfl⟩

theorem sets_after {key : RecordKey} {q : Option Record} {before : DocumentStore}
    (unchanged : keeping.Unchanged before s) (sets : keeping.Sets name key q s s') :
    keeping.Sets name key q before s' := by
  refine ⟨sets.1, ?_⟩
  rw [sets.2, unchanged.2]

theorem unchanged_after {before : DocumentStore} (first : keeping.Unchanged before s)
    (second : keeping.Unchanged s s') : keeping.Unchanged before s' :=
  ⟨second.1, second.2.trans first.2⟩

theorem ran_stamp : ran stamp s = (.ok s.supply.stamp.1, { s with supply := s.supply.stamp.2 }) :=
  rfl

def touched (name : String) (s : DocumentStore) : DocumentStore :=
  ⟨updateIn name id s.collections, s.supply⟩

/-- How a write ends. There is a collection of the name before the identifier is looked at. -/
theorem ran_write_eq (name : String) (d : Document) (s : DocumentStore) :
    ran (write name d) s =
      if maxNameBytes < name.utf8ByteSize then (.error tooLong, s)
      else match checkId d.id with
        | .error fault => (.error fault, touched name s)
        | .ok _ =>
          if maxNameBytes < (d.id ++ ".json").utf8ByteSize then (.error tooLong, touched name s)
          else (.ok (), ⟨updateIn name (placeDocument d) (updateIn name id s.collections),
            s.supply⟩) := by
  by_cases long : maxNameBytes < name.utf8ByteSize
  · rw [if_pos long, write, if_pos long]
    exact ran_bind_error (ran_throw _ s)
  · rw [if_neg long, write, if_neg long]
    change ran (liftM (checkId d.id) >>= _) (touched name s) = _
    rw [ran_bind, ran_lift]
    cases checkId d.id with
    | error fault => rfl
    | ok done =>
      change ran (if maxNameBytes < (d.id ++ ".json").utf8ByteSize then _ else _) _ = _
      split
      · exact ran_bind_error (ran_throw _ _)
      · rfl

theorem ran_write (d : Document) (short : ¬ maxNameBytes < name.utf8ByteSize)
    (valid : checkId d.id = .ok ()) (short_id : ¬ maxNameBytes < (d.id ++ ".json").utf8ByteSize) :
    ran (write name d) s = (.ok (), ⟨updateIn name (placeDocument d)
      (updateIn name id s.collections), s.supply⟩) := by
  rw [ran_write_eq, if_neg short, valid]
  exact if_neg short_id

/-- A write is refused before or after there is a collection of the name, or is made. -/
theorem ran_write_cases (name : String) (d : Document) (s : DocumentStore) :
    (∃ fault, ran (write name d) s = (.error fault, s)) ∨
      (∃ fault, ran (write name d) s = (.error fault, touched name s)) ∨
      (¬ maxNameBytes < name.utf8ByteSize ∧ checkId d.id = .ok () ∧
        ¬ maxNameBytes < (d.id ++ ".json").utf8ByteSize) := by
  rw [ran_write_eq]
  by_cases long : maxNameBytes < name.utf8ByteSize
  · exact .inl ⟨tooLong, if_pos long⟩
  · rw [if_neg long]
    cases checkId d.id with
    | error fault => exact .inr (.inl ⟨fault, rfl⟩)
    | ok done =>
      by_cases long_id : maxNameBytes < (d.id ++ ".json").utf8ByteSize
      · exact .inr (.inl ⟨tooLong, if_pos long_id⟩)
      · exact .inr (.inr ⟨long, rfl, long_id⟩)

theorem checkId_error {id : String} {fault : DocumentFault} (checked : checkId id = .error fault) :
    fault = .invalidId id := by
  unfold checkId at checked
  split at checked
  · cases checked
  · exact (Except.error.inj checked).symm

section Checked

variable {α : Type} {id : String} (call : DocumentCall α) (s : DocumentStore)

theorem ran_checked (valid : checkId id = .ok ()) :
    ran (do liftM (checkId id); call) s = ran call s := by
  rw [ran_bind, ran_lift, valid]

theorem ran_unchecked {fault : DocumentFault} (refused : checkId id = .error fault) :
    ran (do liftM (checkId id); call) s = (.error fault, s) := by
  rw [ran_bind, ran_lift, refused]

end Checked

/-- A replacement is refused, or is an upsert of a document that is there. -/
theorem ran_replace_cases (name id : String) (r : Record) (s : DocumentStore) :
    (∃ fault, ran (replace name id r) s = (.error fault, s)) ∨
      ∃ d, checkId id = .ok () ∧ s.document? name id = some d ∧
        ran (replace name id r) s = ran (upsert name id r) s := by
  cases checked : checkId id with
  | error fault => exact .inl ⟨fault, ran_unchecked _ s checked⟩
  | ok done =>
    have started : ran (replace name id r) s = ran (get >>= fun now => do
        if (now.document? name id).isNone then throw (.notFound id)
        upsert name id r) s := ran_checked _ s checked
    rw [started, ran_bind_ok (ran_get s)]
    cases s.document? name id with
    | none => exact .inl ⟨.notFound id, rfl⟩
    | some d => exact .inr ⟨d, rfl, rfl, rfl⟩

/-- A document that is found is one that is there, read back. -/
theorem ran_find_cases (name id : String) (s : DocumentStore) :
    (∃ fault, ran (find name id) s = (.error fault, s) ∧
      ((∃ what, fault = .notFound what) → s.document? name id = none)) ∨
      ∃ e d, checkId id = .ok () ∧ s.document? name id = some e ∧ reread e = .ok d ∧
        ran (find name id) s = (.ok d, s) := by
  cases checked : checkId id with
  | error fault =>
    refine .inl ⟨fault, ran_unchecked _ s checked, ?_⟩
    rintro ⟨what, rfl⟩
    cases checkId_error checked
  | ok done =>
    have started : ran (find name id) s = _ := ran_checked _ s checked
    rw [started, ran_bind_ok (ran_get s)]
    cases s.document? name id with
    | none => exact .inl ⟨.notFound id, rfl, fun _ => rfl⟩
    | some e =>
      have back {outcome : Except DocumentFault Document} (read : reread e = outcome) :
          ran (liftM (reread e) : DocumentCall Document) s = (outcome, s) := by
        rw [ran_lift, read]
      cases read : reread e with
      | ok d => exact .inr ⟨e, d, rfl, rfl, read, back read⟩
      | error fault =>
        refine .inl ⟨fault, back read, ?_⟩
        rintro ⟨what, rfl⟩
        unfold reread at read
        split at read <;> cases read

theorem ran_find_same (name id : String) (s : DocumentStore) : (ran (find name id) s).2 = s := by
  rcases ran_find_cases name id s with ⟨fault, failed, -⟩ | ⟨e, d, -, -, -, found⟩
  · rw [failed]
  · rw [found]

/-- A deletion is refused, or takes away a document that is there. -/
theorem ran_delete_cases (name id : String) (s : DocumentStore) :
    (∃ fault, ran (delete name id) s = (.error fault, s) ∧
      (checkId id = .ok () → s.document? name id = none)) ∨
      ∃ d, checkId id = .ok () ∧ s.document? name id = some d ∧ ran (delete name id) s =
        (.ok (), ⟨updateIn name (fun documents => documents.filter (·.id != id)) s.collections,
          s.supply⟩) := by
  cases checked : checkId id with
  | error fault => exact .inl ⟨fault, ran_unchecked _ s checked, nofun⟩
  | ok done =>
    have started : ran (delete name id) s = ran (get >>= fun now => do
        if (now.document? name id).isNone then throw (.notFound id)
        update name fun documents => documents.filter (·.id != id)) s := ran_checked _ s checked
    rw [started, ran_bind_ok (ran_get s)]
    cases s.document? name id with
    | none => exact .inl ⟨.notFound id, rfl, fun _ => rfl⟩
    | some d => exact .inr ⟨d, rfl, rfl, rfl⟩

/-- An insertion takes what it makes up from the supply. Then it is refused, or is a write under an
identifier that is free. -/
theorem ran_insert_cases (name : String) (r : Record) (s : DocumentStore) :
    let d := (Document.ofRecord r s.supply).1
    let supplied : DocumentStore := { s with supply := (Document.ofRecord r s.supply).2 }
    (∃ fault, ran (insert name r) s = (.error fault, supplied)) ∨
      (checkId d.id = .ok () ∧ s.document? name d.id = none ∧
        ran (insert name r) s = ran (do write name d; return d) supplied) := by
  intro d supplied
  have started : ran (insert name r) s = ran (do
      liftM (checkId d.id)
      if (s.document? name d.id).isSome then throw (.duplicate d.id)
      write name d
      return d) supplied := by
    rw [insert, ran_bind_ok (ran_get s)]
    rfl
  rw [started]
  cases checked : checkId d.id with
  | error fault => exact .inl ⟨fault, ran_bind_error (ran_lift _ supplied)⟩
  | ok done =>
    cases s.document? name d.id with
    | some other => exact .inl ⟨.duplicate d.id, rfl⟩
    | none => exact .inr ⟨rfl, rfl, rfl⟩

/-- A write is refused and changes no document, or sets the properties of its key. -/
theorem write_cases (sound : s.Sound) (valid : checkName name = .ok ()) {d : Document}
    (stored : Document.Properties d.properties) :
    (∃ fault s', ran (write name d) s = (.error fault, s') ∧ keeping.Unchanged s s') ∨
      (Addresses name d.id ∧ ∃ q s', ran (write name d) s = (.ok (), s') ∧ Document.Shown q ∧
        Json.rereadRecord d.properties = .ok q ∧
        keeping.Sets name (.document d.id) (some q) s s') := by
  have unchanged : keeping.Unchanged s (touched name s) := unchanged_touch sound name s.supply
  rcases ran_write_cases name d s with ⟨fault, refused⟩ | ⟨fault, refused⟩ | ⟨short, checked, short_id⟩
  · exact .inl ⟨fault, s, refused, sound, rfl⟩
  · exact .inl ⟨fault, _, refused, unchanged⟩
  · obtain ⟨q, read, shown⟩ := stored.reread
    have addresses : Addresses name d.id := ⟨valid, checked, short, short_id⟩
    exact .inr ⟨addresses, q, _, ran_write d short checked short_id, shown, read,
      sets_after unchanged (sets_place unchanged.1 addresses stored s.supply read)⟩

theorem checkId_ne_empty {id : String} (valid : checkId id = .ok ()) : id ≠ "" := by
  intro empty
  rw [empty] at valid
  cases valid

/-- How a call ends that writes to one document. -/
def Changes (name id : String) (needs : Prop) (call : DocumentCall Document) (s : DocumentStore) :
    Prop :=
  ∀ outcome s', ran call s = (outcome, s') → match outcome with
    | .error _ => keeping.Unchanged s s'
    | .ok _ => (needs → s.contents name (.document id) ≠ none) ∧
      ∃ q, keeping.Sets name (.document id) (some q) s s'

theorem changes_upsert (sound : s.Sound) (valid : checkName name = .ok ())
    (fits : r.Ordered ∧ r.Settled) (id : String) : Changes name id False (upsert name id r) s := by
  intro outcome s' run
  rw [upsert, ran_bind_ok ran_stamp] at run
  have stamped := unchanged_supply sound s.supply.stamp.2
  have stored : Document.Properties (Document.withId id r s.supply.stamp.1).properties :=
    Record.stored_filter fits.1 fits.2
  rcases write_cases stamped.1 valid stored with
    ⟨fault, after, refused, unchanged⟩ | ⟨-, q, after, written, -, -, sets⟩
  · rw [ran_bind_error refused] at run
    cases run
    exact unchanged_after stamped unchanged
  · rw [ran_bind_ok written] at run
    cases run
    exact ⟨nofun, q, sets_after stamped sets⟩

theorem mem_of_document? {id : String} {d : Document} (found : s.document? name id = some d) :
    d.id = id ∧ ∃ c ∈ s.collections, c.name = name ∧ d ∈ c.documents := by
  unfold document? documents at found
  have is := List.find?_some found
  have inside := List.mem_of_find?_eq_some found
  refine ⟨eq_of_beq is, ?_⟩
  cases which : s.collection? name with
  | none =>
    rw [which] at inside
    cases inside
  | some c =>
    rw [which] at inside
    unfold collection? at which
    have named := List.find?_some which
    exact ⟨c, List.mem_of_find?_eq_some which, eq_of_beq named, inside⟩

theorem sound_document (sound : s.Sound) {id : String} {d : Document}
    (found : s.document? name id = some d) :
    d.id = id ∧ Addresses name id ∧ ∃ q, Json.rereadRecord d.properties = .ok q ∧
      Document.Shown q ∧ s.contents name (.document id) = some q := by
  obtain ⟨rfl, c, inside, rfl, member⟩ := mem_of_document? found
  have is := sound.documents c inside d member
  obtain ⟨q, read, shown⟩ := is.1.reread
  refine ⟨rfl, is.2, q, read, shown, ?_⟩
  rw [contents, found]
  exact congrArg Except.toOption read

theorem document?_of_contents (sound : s.Sound) {id : String} :
    s.contents name (.document id) = none ↔ s.document? name id = none := by
  cases found : s.document? name id with
  | none => simp [contents, found]
  | some d =>
    obtain ⟨-, -, q, -, -, there⟩ := sound_document sound found
    simp [there]

theorem addresses_of_contents (sound : s.Sound) {id : String}
    (there : s.contents name (.document id) ≠ none) : Addresses name id := by
  cases found : s.document? name id with
  | none => exact absurd ((document?_of_contents sound).mpr found) there
  | some d => exact (sound_document sound found).2.1

theorem changes_replace (sound : s.Sound) (valid : checkName name = .ok ())
    (fits : r.Ordered ∧ r.Settled) (id : String) : Changes name id True (replace name id r) s := by
  intro outcome s' run
  rcases ran_replace_cases name id r s with ⟨fault, refused⟩ | ⟨d, -, found, same⟩
  · rw [refused] at run
    cases run
    exact ⟨sound, rfl⟩
  · rw [same] at run
    have upserted := changes_upsert sound valid fits id outcome s' run
    cases outcome with
    | error fault => exact upserted
    | ok shown =>
      refine ⟨fun _ absent => ?_, upserted.2⟩
      rw [(document?_of_contents sound).mp absent] at found
      cases found

theorem find_cases (sound : s.Sound) (name id : String) :
    (∃ fault, ran (find name id) s = (.error fault, s) ∧
      ((∃ what, fault = .notFound what) → s.contents name (.document id) = none)) ∨
      ∃ d : Document, ran (find name id) s = (.ok d, s) ∧ d.id = id ∧ Addresses name id ∧
        Document.Shown d.properties ∧ s.contents name (.document id) = some d.properties := by
  rcases ran_find_cases name id s with ⟨fault, failed, missing⟩ | ⟨e, d, -, there, read, found⟩
  · exact .inl ⟨fault, failed, fun none => (document?_of_contents sound).mpr (missing none)⟩
  · obtain ⟨same, addresses, q, reads, shown, contents⟩ := sound_document sound there
    have back : reread e = .ok { e with properties := q } := by rw [reread, reads]
    cases read.symm.trans back
    exact .inr ⟨_, found, same, addresses, shown, contents⟩

theorem changes_merge (sound : s.Sound) (valid : checkName name = .ok ())
    (fits : r.Ordered ∧ r.Settled) (id : String) : Changes name id True (merge name id r) s := by
  intro outcome s' run
  rcases find_cases sound name id with ⟨fault, failed, -⟩ | ⟨d, found, rfl, -, shown, there⟩
  · rw [merge, ran_bind_error failed] at run
    cases run
    exact ⟨sound, rfl⟩
  · rw [merge, ran_bind_ok found, ran_bind_ok ran_stamp] at run
    have stamped := unchanged_supply sound s.supply.stamp.2
    have stored : Document.Properties (d.merge r s.supply.stamp.1).properties :=
      shown.toStored.extend (Record.stored_filter fits.1 fits.2)
    rcases write_cases stamped.1 valid stored with
      ⟨fault, after, refused, unchanged⟩ | ⟨-, q, after, written, -, -, sets⟩
    · rw [ran_bind_error refused] at run
      cases run
      exact unchanged_after stamped unchanged
    · rw [Document.merge_id] at sets
      rw [ran_bind_ok written] at run
      cases run
      refine ⟨fun _ => ?_, q, sets_after stamped sets⟩
      rw [there]
      exact Option.some_ne_none d.properties

theorem delete_cases (sound : s.Sound) (name id : String) :
    (∃ fault, ran (delete name id) s = (.error fault, s) ∧
      (checkId id = .ok () → s.contents name (.document id) = none)) ∨
      ∃ after, ran (delete name id) s = (.ok (), after) ∧
        s.contents name (.document id) ≠ none ∧
        keeping.Sets name (.document id) none s after := by
  rcases ran_delete_cases name id s with ⟨fault, failed, missing⟩ | ⟨d, -, found, deleted⟩
  · exact .inl ⟨fault, failed, fun valid => (document?_of_contents sound).mpr (missing valid)⟩
  · refine .inr ⟨_, deleted, fun absent => ?_, sets_filter sound name id⟩
    rw [(document?_of_contents sound).mp absent] at found
    cases found

theorem insert_cases (sound : s.Sound) (valid : checkName name = .ok ())
    (fits : r.Ordered ∧ r.Settled) :
    (∃ fault s', ran (insert name r) s = (.error fault, s') ∧ keeping.Unchanged s s') ∨
      ∃ d q s', ran (insert name r) s = (.ok d, s') ∧ d.id ≠ "" ∧
        (∀ m ∈ d.properties, Document.isProperty m.1 = true) ∧
        s.contents name (.document d.id) = none ∧
        keeping.Sets name (.document d.id) (some q) s s' := by
  have supplied := unchanged_supply sound (Document.ofRecord r s.supply).2
  have stored : Document.Properties (Document.ofRecord r s.supply).1.properties :=
    Record.stored_filter fits.1 fits.2
  rcases ran_insert_cases name r s with ⟨fault, refused⟩ | ⟨checked, free, same⟩
  · exact .inl ⟨fault, _, refused, supplied⟩
  · rw [same]
    rcases write_cases supplied.1 valid stored with
      ⟨fault, after, refused, unchanged⟩ | ⟨-, q, after, written, -, -, sets⟩
    · rw [ran_bind_error refused]
      exact .inl ⟨fault, after, rfl, unchanged_after supplied unchanged⟩
    · rw [ran_bind_ok written]
      exact .inr ⟨_, q, after, rfl, checkId_ne_empty checked, stored.own,
        (document?_of_contents sound).mpr free, sets_after supplied sets⟩

theorem ran_named {α : Type} (name : String) (call : DocumentCall α) (s : DocumentStore) :
    ran (named name call) s = match checkName name with
      | .error fault => (.error fault.toStoreFault, s)
      | .ok _ => ((ran call s).1.mapError DocumentFault.toStoreFault, (ran call s).2) := by
  have adapted : ran (named name call) s =
      ((ran (liftM (checkName name) >>= fun _ => call) s).1.mapError DocumentFault.toStoreFault,
        (ran (liftM (checkName name) >>= fun _ => call) s).2) := rfl
  rw [adapted, ran_bind, ran_lift]
  cases checkName name <;> rfl

theorem ran_named_same {α : Type} (name : String) {call : DocumentCall α} {s : DocumentStore}
    (same : (ran call s).2 = s) : (ran (named name call) s).2 = s := by
  rw [ran_named]
  cases checkName name with
  | error fault => rfl
  | ok done => exact same

/-- A call for one document, answered with its record. -/
def keyed (name : String) (key : RecordKey) (call : String → DocumentCall Document) :
    Call DocumentStore Record := do
  let id ← idOf key
  return (← named name (call id)).toRecord

theorem ran_keyed (name id : String) (call : String → DocumentCall Document) (s : DocumentStore) :
    ran (keyed name (.document id) call) s = match checkName name with
      | .error fault => (.error fault.toStoreFault, s)
      | .ok _ => match ran (call id) s with
        | (.error fault, after) => (.error fault.toStoreFault, after)
        | (.ok d, after) => (.ok d.toRecord, after) := by
  change ran (named name (call id) >>= _) s = _
  rw [ran_bind, ran_named]
  cases checkName name with
  | error fault => rfl
  | ok done =>
    rcases ran (call id) s with ⟨outcome, after⟩
    cases outcome <;> rfl

theorem keyed_cases (sound : s.Sound) {key : RecordKey} {call : String → DocumentCall Document}
    {needs : Prop} (changes : checkName name = .ok () → ∀ id, Changes name id needs (call id) s)
    {outcome : Except StoreFault Record} (run : ran (keyed name key call) s = (outcome, s')) :
    match outcome with
    | .error _ => keeping.Unchanged s s'
    | .ok _ => (needs → s.contents name key ≠ none) ∧
      ∃ q, keeping.Sets name key (some q) s s' := by
  cases key with
  | entity partition row =>
    cases run
    exact ⟨sound, rfl⟩
  | document id =>
    rw [ran_keyed] at run
    cases valid : checkName name with
    | error fault =>
      rw [valid] at run
      cases run
      exact ⟨sound, rfl⟩
    | ok done =>
      rcases called : ran (call id) s with ⟨ended, after⟩
      have change := changes valid id ended after called
      rw [valid, called] at run
      cases ended with
      | error fault =>
        cases run
        exact change
      | ok d =>
        cases run
        exact change

theorem get_cases (sound : s.Sound) (name : String) (key : RecordKey) :
    (∃ fault, ran (backend.get name key) s = (.error fault, s) ∧
      ((∃ what, fault = .notFound what) → s.contents name key = none)) ∨
      ∃ prior q, ran (backend.get name key) s = (.ok prior, s) ∧
        s.contents name key = some q ∧ keeping.shows key prior q := by
  cases key with
  | entity partition row => exact .inl ⟨_, rfl, fun _ => rfl⟩
  | document id =>
    change (∃ fault, ran (keyed name (.document id) (find name)) s = _ ∧ _) ∨
      ∃ prior q, ran (keyed name (.document id) (find name)) s = _ ∧ _
    rw [ran_keyed]
    cases valid : checkName name with
    | error fault =>
      refine .inl ⟨_, rfl, fun missing => ?_⟩
      obtain ⟨what, same⟩ := missing
      have invalid : ∃ reason, fault = .invalidCollection reason := by
        unfold checkName at valid
        split at valid
        · exact ⟨_, (Except.error.inj valid).symm⟩
        · split at valid
          · exact ⟨_, (Except.error.inj valid).symm⟩
          · split at valid
            · exact ⟨_, (Except.error.inj valid).symm⟩
            · cases valid
      obtain ⟨reason, rfl⟩ := invalid
      cases same
    | ok done =>
      rcases find_cases sound name id with
        ⟨fault, failed, absent⟩ | ⟨d, found, rfl, -, shown, there⟩
      · rw [failed]
        refine .inl ⟨_, rfl, fun missing => absent ?_⟩
        obtain ⟨what, same⟩ := missing
        cases fault with
        | notFound id => exact ⟨id, rfl⟩
        | _ => cases same
      · rw [found]
        exact .inr ⟨d.toRecord, d.properties, rfl, there, shown, d, rfl, rfl, rfl⟩

theorem get_same (name : String) (key : RecordKey) : (ran (backend.get name key) s).2 = s := by
  cases key with
  | entity partition row => rfl
  | document id =>
    have same := ran_find_same name id s
    change (ran (keyed name (.document id) (find name)) s).2 = s
    rw [ran_keyed]
    rcases found : ran (find name id) s with ⟨outcome, after⟩
    rw [found] at same
    cases checkName name with
    | error fault => rfl
    | ok done => cases outcome <;> exact same

theorem get_ok (sound : s.Sound) {key : RecordKey} {prior : Record}
    (got : (ran (backend.get name key) s).1 = .ok prior) :
    ∃ q, s.contents name key = some q ∧ keeping.shows key prior q := by
  rcases get_cases sound name key with ⟨fault, failed, -⟩ | ⟨prior', q, found, there, shows⟩
  · rw [failed] at got
    cases got
  · rw [found] at got
    cases got
    exact ⟨q, there, shows⟩

theorem get_missing (sound : s.Sound) {key : RecordKey} {what : String}
    (got : (ran (backend.get name key) s).1 = .error (.notFound what)) :
    s.contents name key = none := by
  rcases get_cases sound name key with ⟨fault, failed, absent⟩ | ⟨prior, q, found, -, -⟩
  · rw [failed] at got
    cases got
    exact absent ⟨what, rfl⟩
  · rw [found] at got
    cases got

theorem ran_query_same (name : String) (q : NativeQuery) (s : DocumentStore) :
    (ran (query name q) s).2 = s := by
  have listed (ds : List Document) (s : DocumentStore) :
      (ran (ds.mapM fun d => liftM (reread d) : DocumentCall (List Document)) s).2 = s := by
    induction ds with
    | nil => rfl
    | cons d ds ih =>
      rw [List.mapM_cons, ran_bind, ran_lift]
      cases reread d with
      | error fault => rfl
      | ok read =>
        change (ran (List.mapM _ ds >>= _) s).2 = s
        rw [ran_bind]
        rcases found : ran (ds.mapM fun d => liftM (reread d) : DocumentCall (List Document)) s
          with ⟨outcome, after⟩
        rw [found] at ih
        cases outcome <;> exact ih
  have same := listed (s.documents name) s
  change (ran ((s.documents name).mapM (fun d => liftM (reread d)) >>= fun ds =>
    liftM (DocumentQuery.run q ds) : DocumentCall (List Record)) s).2 = s
  rw [ran_bind]
  rcases found : ran ((s.documents name).mapM fun d => liftM (reread d) :
    DocumentCall (List Document)) s with ⟨outcome, after⟩
  rw [found] at same
  cases outcome with
  | error fault => exact same
  | ok ds =>
    change (ran (liftM (DocumentQuery.run q ds)) after).2 = s
    rw [ran_lift]
    exact same

theorem insert_outcome (sound : s.Sound) (fits : r.Ordered ∧ r.Settled)
    {outcome : Except StoreFault Record} (run : ran (backend.insert name r) s = (outcome, s')) :
    match outcome with
    | .error _ => keeping.Unchanged s s'
    | .ok created => ∃ key q, StoreKind.document.keyOf created none = .ok key ∧
      s.contents name key = none ∧ keeping.Sets name key (some q) s s' := by
  change ran (named name (insert name r) >>= _) s = _ at run
  rw [ran_bind, ran_named] at run
  cases valid : checkName name with
  | error fault =>
    rw [valid] at run
    cases run
    exact ⟨sound, rfl⟩
  | ok done =>
    rw [valid] at run
    rcases insert_cases sound valid fits with
      ⟨fault, after, failed, unchanged⟩ | ⟨d, q, after, inserted, present, own, absent, sets⟩
    · rw [failed] at run
      cases run
      exact unchanged
    · rw [inserted] at run
      cases run
      exact ⟨_, q, Document.keyOf_toRecord own present, absent, sets⟩

theorem delete_outcome (sound : s.Sound) {key : RecordKey} {outcome : Except StoreFault Unit}
    (run : ran (backend.delete name key) s = (outcome, s')) :
    match outcome with
    | .error _ => keeping.Unchanged s s'
    | .ok _ => s.contents name key ≠ none ∧ keeping.Sets name key none s s' := by
  cases key with
  | entity partition row =>
    cases run
    exact ⟨sound, rfl⟩
  | document id =>
    change ran (named name (delete name id)) s = _ at run
    rw [ran_named] at run
    cases valid : checkName name with
    | error fault =>
      rw [valid] at run
      cases run
      exact ⟨sound, rfl⟩
    | ok done =>
      rw [valid] at run
      rcases delete_cases sound name id with ⟨fault, failed, -⟩ | ⟨after, deleted, there, sets⟩
      · rw [failed] at run
        cases run
        exact ⟨sound, rfl⟩
      · rw [deleted] at run
        cases run
        exact ⟨there, sets⟩

theorem sets_deleted (sound : s.Sound) {key : RecordKey} (there : s.contents name key ≠ none) :
    keeping.Sets name key none s (ran (backend.delete name key) s).2 := by
  cases key with
  | entity partition row => exact absurd rfl there
  | document id =>
    have addresses := addresses_of_contents sound there
    change keeping.Sets _ _ _ s (ran (named name (delete name id)) s).2
    rw [ran_named, addresses.valid_name]
    rcases delete_cases sound name id with ⟨fault, -, absent⟩ | ⟨after, deleted, -, sets⟩
    · exact absurd (absent addresses.valid_id) there
    · rw [deleted]
      exact sets

theorem sets_written (sound : s.Sound) {d : Document} (addresses : Addresses name d.id)
    (shown : Document.Shown d.properties) :
    ∃ after, ran (write name d) s = (.ok (), after) ∧
      keeping.Sets name (.document d.id) (some d.properties) s after := by
  have touched := unchanged_touch sound name s.supply
  exact ⟨_, ran_write d addresses.short_name addresses.valid_id addresses.short_id,
    sets_after touched (sets_place touched.1 addresses shown.toStored s.supply shown.same)⟩

theorem withId_toRecord {d : Document} (shown : Document.Shown d.properties) (stamp : String) :
    Document.withId d.id d.toRecord stamp = ⟨d.id, stamp, d.properties⟩ := by
  rw [Document.withId, Document.propertiesOf_toRecord d shown.ordered shown.own]

theorem sets_upserted (sound : s.Sound) {d : Document} (addresses : Addresses name d.id)
    (shown : Document.Shown d.properties) :
    keeping.Sets name (.document d.id) (some d.properties) s
      (ran (backend.upsert name (.document d.id) d.toRecord) s).2 := by
  have stamped := unchanged_supply sound s.supply.stamp.2
  obtain ⟨after, written, sets⟩ := sets_written (d := ⟨d.id, s.supply.stamp.1, d.properties⟩)
    stamped.1 addresses shown
  have upserted : ran (upsert name d.id d.toRecord) s =
      (.ok ⟨d.id, s.supply.stamp.1, d.properties⟩, after) := by
    rw [upsert, ran_bind_ok ran_stamp, withId_toRecord shown, ran_bind_ok written]
    rfl
  change keeping.Sets _ _ _ s
    (ran (keyed name (.document d.id) fun id => upsert name id d.toRecord) s).2
  rw [ran_keyed, addresses.valid_name, upserted]
  exact sets_after stamped sets

theorem ofRecord_toRecord {d : Document} (shown : Document.Shown d.properties) (present : d.id ≠ "")
    (supply : Supply) : Document.ofRecord d.toRecord supply =
      (⟨d.id, supply.stamp.1, d.properties⟩, supply.stamp.2) := by
  have own : Document.idOf? d.toRecord = some d.id := by
    rw [Document.idOf?, Document.get?_toRecord d shown.own]
    split
    · next empty => exact absurd (Value.string.inj (Option.some.inj empty)) present
    · next v _ same => rw [← Option.some.inj same]; rfl
    · next none => cases none
  rw [Document.ofRecord, own]
  change (Document.withId d.id d.toRecord supply.stamp.1, supply.stamp.2) = _
  rw [withId_toRecord shown]

theorem sets_inserted (sound : s.Sound) {d : Document} (addresses : Addresses name d.id)
    (shown : Document.Shown d.properties) (absent : s.contents name (.document d.id) = none) :
    keeping.Sets name (.document d.id) (some d.properties) s
      (ran (backend.insert name d.toRecord) s).2 := by
  have present := checkId_ne_empty addresses.valid_id
  have stamped := unchanged_supply sound s.supply.stamp.2
  obtain ⟨after, written, sets⟩ := sets_written (d := ⟨d.id, s.supply.stamp.1, d.properties⟩)
    stamped.1 addresses shown
  have inserted : ran (insert name d.toRecord) s =
      (.ok ⟨d.id, s.supply.stamp.1, d.properties⟩, after) := by
    rw [insert, ran_bind_ok (ran_get s), ofRecord_toRecord shown present]
    refine (ran_checked _ { s with supply := s.supply.stamp.2 } addresses.valid_id).trans ?_
    change ran (if (s.document? name d.id).isSome then _ else _) _ = _
    rw [(document?_of_contents sound).mp absent]
    exact ran_bind_ok written
  change keeping.Sets _ _ _ s (ran (named name (insert name d.toRecord) >>= _) s).2
  rw [ran_bind, ran_named, addresses.valid_name, inserted]
  exact sets_after stamped sets

/-- The document store keeps records by their keys. -/
theorem keeps_records : backend.Keeps keeping where
  query_same name q s := ran_named_same name (ran_query_same name q s)
  get_same name key _ := get_same name key
  get_ok sound got := get_ok sound got
  get_missing sound got := get_missing sound got
  insert_ok sound fits run := insert_outcome sound fits run
  insert_error sound fits run := insert_outcome sound fits run
  replace_ok sound fits run := by
    obtain ⟨there, sets⟩ := keyed_cases sound (fun valid => changes_replace sound valid fits) run
    exact ⟨there trivial, sets⟩
  replace_error sound fits run :=
    keyed_cases sound (fun valid => changes_replace sound valid fits) run
  upsert_ok sound fits run :=
    (keyed_cases sound (fun valid => changes_upsert sound valid fits) run).2
  upsert_error sound fits run :=
    keyed_cases sound (fun valid => changes_upsert sound valid fits) run
  merge_ok sound fits run := by
    obtain ⟨there, sets⟩ := keyed_cases sound (fun valid => changes_merge sound valid fits) run
    exact ⟨there trivial, sets⟩
  merge_error sound fits run :=
    keyed_cases sound (fun valid => changes_merge sound valid fits) run
  delete_ok sound run := delete_outcome sound run
  delete_error sound run := delete_outcome sound run
  submit_ok run := by cases run
  submit_error sound run := by
    cases run
    exact ⟨sound, rfl⟩
  addressed := by
    intro name key s sound there
    cases key with
    | entity partition row => exact absurd rfl there
    | document id => exact ⟨id, rfl, addresses_of_contents sound there⟩
  deletes sound there := sets_deleted sound there
  upserts := by
    intro name key s prior q sound addresses shows
    obtain ⟨shown, d, rfl, rfl, rfl⟩ := shows
    obtain ⟨id, same, addresses⟩ := addresses
    cases same
    exact sets_upserted sound addresses shown
  inserts := by
    intro name key s prior q sound addresses _ shows absent
    obtain ⟨shown, d, rfl, rfl, rfl⟩ := shows
    obtain ⟨id, same, addresses⟩ := addresses
    cases same
    exact sets_inserted sound addresses shown absent

end DocumentStore

end StoreGateway

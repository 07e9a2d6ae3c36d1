import StoreGateway.Proofs.DocumentMeaning
import StoreGateway.Proofs.NumberTexts
import StoreGateway.Proofs.OwnTerms
import StoreGateway.Proofs.Readback

/-!
A filter means the same in both native languages. Main statement: over values that are no arrays or
objects, a record satisfies the entity table's text exactly when it satisfies the document predicate,
unless a null is listed for a field that the record does not have.
-/

namespace StoreGateway

/-- A value without parts, as JSON text can hold it: its number is within 64 bits, with a sign or
without, or one of the format. -/
def Value.Scalar : Value → Prop
  | .null => True
  | .bool _ => True
  | .int i => minInt64 ≤ i ∧ i ≤ maxUInt64
  | .float x => x.Formed
  | .string _ => True
  | .array _ => False
  | .object _ => False

theorem Decimal.readInt64_bounds {text : String} {i : Int} (read : readInt64? text = some i) :
    minInt64 ≤ i ∧ i ≤ maxInt64 := by
  unfold readInt64? at read
  generalize splitSign text.toList = parts at read
  obtain ⟨negative, digits⟩ := parts
  by_cases all : digits ≠ [] ∧ digits.all Char.isDigit
  · simp only [if_pos all] at read
    generalize (if negative = true then -(natOfDigits digits : Int) else natOfDigits digits) = n at read
    split at read
    · next within =>
      cases read
      exact within
    · cases read
  · simp only [if_neg all] at read
    cases read

theorem Decimal.formed_of_nearest {negative : Bool} {digits : Nat} {exponent : Int} {x : Binary64}
    (nearest : nearest? negative digits exponent = some x) : x.Formed := by
  unfold nearest? at nearest
  simp only at nearest
  split at nearest
  · cases nearest
    have positive : 0 < Binary64.limit := by decide +kernel
    exact ⟨positive, Nat.dvd_zero _⟩
  · split at nearest
    · cases nearest
    · split at nearest
      · exact Binary64.formed_of_finite nearest
      · exact Binary64.formed_of_finite nearest

theorem Decimal.formed_of_readBinary64 {text : String} {x : Binary64}
    (read : readBinary64? text = some x) : x.Formed := by
  unfold readBinary64? at read
  simp only at read
  -- With a point behind the whole digits or without one, what is read is the nearest number.
  split at read
  all_goals
    split at read
    · cases read
    · obtain ⟨exponent, -, nearest⟩ := Option.bind_eq_some_iff.mp read
      exact Decimal.formed_of_nearest nearest

theorem mismatch_cases {field : Field} {text : String} {expected : Expected} {v : Value}
    (kept : mismatch field text expected = .ok v) : v = .string text ∧ field.required = false := by
  unfold mismatch at kept
  cases required : field.required with
  | true => rw [required] at kept; cases kept
  | false => rw [required] at kept; cases kept; exact ⟨rfl, rfl⟩

/-- What a value becomes in line with a field: itself, or one of the field's type. -/
inductive Conforms (field : Field) (v : Value) : Value → Prop
  | same : Conforms field v v
  | integer {i : Int} (type : field.type = .integer) (within : minInt64 ≤ i ∧ i ≤ maxInt64) :
      Conforms field v (.int i)
  | number {x : Binary64} (type : field.type = .number) (formed : x.Formed) :
      Conforms field v (.float x)
  | boolean {b : Bool} (type : field.type = .boolean) : Conforms field v (.bool b)
  | string {s : String} (type : field.type = .string) : Conforms field v (.string s)

theorem conforms_of_conform {field : Field} {v w : Value} (conformed : conform field v = .ok w) :
    Conforms field v w := by
  unfold conform at conformed
  split at conformed
  · next type =>
    split at conformed
    · next read =>
      cases conformed
      exact .integer type (Decimal.readInt64_bounds read)
    · rw [(mismatch_cases conformed).1]
      exact .same
  · split at conformed
    · next required =>
      have optional := (mismatch_cases conformed).2
      rw [required] at optional
      cases optional
    · cases conformed
      exact .same
  · next type =>
    split at conformed
    · next read =>
      cases conformed
      exact .number type (Decimal.formed_of_readBinary64 read)
    · rw [(mismatch_cases conformed).1]
      exact .same
  · next type =>
    split at conformed
    · cases conformed
      exact .boolean type
    · rw [(mismatch_cases conformed).1]
      exact .same
  · next type => cases conformed; exact .string type
  · next type => cases conformed; exact .string type
  · next type => cases conformed; exact .string type
  · cases conformed
    exact .same

namespace Value

theorem scalar_of_bounds {i : Int} (within : minInt64 ≤ i ∧ i ≤ maxInt64) : Scalar (.int i) := by
  have wider : maxInt64 ≤ maxUInt64 := by decide
  exact ⟨within.1, Int.le_trans within.2 wider⟩

/-- A scalar whose number, if it is whole, is within 64 bits with a sign. -/
def Signed (v : Value) : Prop :=
  v.Scalar ∧ ∀ i, v = .int i → i ≤ maxInt64

theorem signed_of_bounds {i : Int} (within : minInt64 ≤ i ∧ i ≤ maxInt64) : Signed (.int i) :=
  ⟨scalar_of_bounds within, fun _ same => by cases same; exact within.2⟩

/-- No literal stands for a whole number beyond 64 bits with a sign: one is read as the nearest number
of the format. -/
theorem signed_infer (raw : String) : Signed (Literal.infer raw) := by
  unfold Literal.infer
  cases Literal.unquote? raw with
  | some text => exact ⟨trivial, nofun⟩
  | none =>
    cases number : Literal.number? raw with
    | some v =>
      unfold Literal.number? at number
      split at number
      · next i read =>
        cases number
        exact signed_of_bounds (Decimal.readInt64_bounds read)
      · split at number
        · obtain ⟨x, read, rfl⟩ := Option.map_eq_some_iff.mp number
          exact ⟨Decimal.formed_of_readBinary64 read, nofun⟩
        · cases number
    | none =>
      cases name : Literal.name? raw with
      | none => exact ⟨trivial, nofun⟩
      | some v =>
        unfold Literal.name? at name
        split at name <;> cases name <;> exact ⟨trivial, nofun⟩

theorem scalar_infer (raw : String) : Scalar (Literal.infer raw) := (signed_infer raw).1

theorem scalar_conform {field : Field} {v w : Value} (scalar : v.Scalar)
    (conformed : conform field v = .ok w) : w.Scalar := by
  cases conforms_of_conform conformed with
  | same => exact scalar
  | integer _ within => exact scalar_of_bounds within
  | number _ formed => exact formed
  | boolean _ => exact trivial
  | string _ => exact trivial

end Value

variable {params : Params}

theorem Params.mem_of_lookup {name : String} {v : Value} (found : params.lookup? name = some v) :
    ∃ m ∈ params, m.2 = v := by
  have member {key : String} (here : params.get? key = some v) : ∃ m ∈ params, m.2 = v :=
    ⟨(key, v), StoreGateway.mem_of_lookup here, rfl⟩
  unfold Params.lookup? at found
  simp only [Option.or_eq_some_iff] at found
  rcases found with here | ⟨-, here | ⟨-, here | ⟨-, here⟩⟩⟩
  · exact member here
  · exact member here
  · exact member here
  · exact member here

/-- What an operand comes to is a scalar if the parameters are. -/
theorem Operand.scalar_coerce {field : Field} {o : Operand} {v : Value}
    (scalars : ∀ m ∈ params, m.2.Scalar) (coerced : o.coerce params field = .ok (.value v)) :
    v.Scalar := by
  have inside {w : Value} (before : o.value? params field.name = .ok w) : w.Scalar := by
    cases o with
    | literal raw =>
      cases before
      exact Value.scalar_infer raw
    | param name =>
      cases found : params.lookup? name with
      | some v =>
        simp only [Operand.value?, found] at before
        cases before
        obtain ⟨m, member, rfl⟩ := Params.mem_of_lookup found
        exact scalars m member
      | none =>
        simp only [Operand.value?, found] at before
        cases before
    | absent => cases before
    | call raw => cases before
    | list items => cases before
  cases Operand.coerces_of_coerce coerced with
  | value known conformed => exact Value.scalar_conform (inside known) conformed

theorem Literal.readable_of_signed {v : Value} (signed : v.Signed) : Readable v := by
  obtain ⟨scalar, most⟩ := signed
  cases v with
  | null => exact trivial
  | bool b => exact trivial
  | int i => exact ⟨scalar.1, most i rfl⟩
  | float x => exact Literal.infer_toText scalar
  | string s => exact trivial
  | array items => exact scalar.elim
  | object members => exact scalar.elim

namespace Entity

theorem holds_nearest (c : Comparator) (actual : Option Value) (i : Int) :
    c.holds actual (.float (Binary64.ofInt i)) = c.holds actual (.int i) := by
  cases actual with
  | none => cases c <;> rfl
  | some a =>
    have compare : a.compare? (.float (Binary64.ofInt i)) = a.compare? (.int i) := by
      cases a <;> rfl
    have equals : a.equals (.float (Binary64.ofInt i)) = a.equals (.int i) := by
      cases a <;> rfl
    cases c with
    | eq => exact equals
    | ne => exact congrArg (! ·) equals
    | _ => simp only [Comparator.holds, compare]

theorem legible_of_scalar {v : Value} (scalar : v.Scalar) : Legible v := by
  by_cases most : ∀ i, v = .int i → i ≤ maxInt64
  · exact legible_of_readable (Literal.readable_of_signed ⟨scalar, most⟩)
  · simp only [not_forall] at most
    obtain ⟨i, rfl, beyond⟩ := most
    intro c actual
    have read : Literal.infer (Literal.text (.int i)) = .float (Binary64.ofInt i) :=
      Literal.infer_unsigned (Int.not_le.mp beyond) scalar.2
    rw [read, holds_nearest]

end Entity

open StoreGateway.Filter

variable {fields : FieldMap} {params : Params}

theorem expressible_of_scalars {scope : Scope} {c : Comparison}
    (scalars : ∀ m ∈ scope.params, m.2.Scalar)
    (no_call : ∀ o ∈ c.operand.singles, ∀ raw, o ≠ .call raw)
    (names : Entity.NamesField scope c) : Entity.Expressible scope c where
  no_call := no_call
  legible _ _ _ _ _ coerced := Entity.legible_of_scalar (Operand.scalar_coerce scalars coerced)
  not_not := names

/-- Both native languages give a filter over scalars one meaning: on every record the entity table's
text and the document predicate evaluate to the same truth value, unless a null is listed for a field
that the record has no value of. -/
theorem native_languages_agree {collection : String} {maxIds : Nat}
    (valid : DocumentStore.checkName collection = .ok ()) (scalars : ∀ m ∈ params, m.2.Scalar)
    {text : String} {f : Filter} (parsed : Filter.parse params text = .ok (some f))
    (no_call : ∀ c ∈ f.comparisons, ∀ o ∈ c.operand.singles, ∀ raw, o ≠ .call raw)
    (names : ∀ c ∈ f.comparisons, Entity.NamesField ⟨.table, fields, params⟩ c)
    {entity document : CompiledFilter}
    (toEntity : (Entity.Compiler.mk fields params maxIds).compile f = .ok entity)
    (toDocument : (DocumentQuery.Compiler.mk collection fields params).compile f = .ok document)
    (distinct : (document.params.map BoundParam.placeholder).Nodup) :
    let bound := NativeQuery.paramsByName ⟨document.text, document.params, none⟩
    ∃ g h, Filter.parse [] entity.text = .ok (some g) ∧
      Filter.parse bound document.text = .ok (some h) ∧
      ∀ r, (∀ c ∈ f.comparisons, Entity.ListsContrast ⟨.table, fields, params⟩ r c) →
        ∃ b, g.holds [] none r = .ok b ∧ h.holds bound (some collection) r = .ok b := by
  have formed := formed_of_parse parsed
  obtain ⟨⟨p, planned⟩, g, parses, holds⟩ := Entity.compiled_written toEntity formed names
  obtain ⟨h, parses', holds'⟩ :=
    (DocumentQuery.means_compiled valid parsed toDocument distinct).2.parse
  refine ⟨g, h, parses, parses', fun r contrast => ?_⟩
  -- The text of each comparison says of this record what the comparison does.
  have written : f.holdsBy (Scope.writtenHolds ⟨.table, fields, params⟩ r) =
      f.holdsBy (Scope.testHolds ⟨.table, fields, params⟩ r) := by
    refine holdsBy_congr fun c member => ?_
    obtain ⟨q, plan⟩ := formed.planned_each planned c member
    obtain ⟨meaning, means, same⟩ := Entity.exists_means_planTest rfl (formed.each c member)
      (expressible_of_scalars scalars (no_call c member) (names c member)) plan
    exact (Entity.writtenHolds_of_means plan means r).trans (same r (contrast c member))
  obtain ⟨b, evaluates⟩ := (formed.and no_call).holdsBy_ok fun c demand =>
    Scope.testHolds_ok ⟨.table, fields, params⟩ r demand.2
  exact ⟨b, (holds r).trans (written.trans evaluates), (holds' r).trans evaluates⟩

/-- A null in the list of a field that is there, a pattern, and a parameter that is not whole. -/
theorem native_languages_agree_of_list :
    let bound : Params :=
      [("@a1", .int 1), ("@a2", .null), ("@b1", .string "x"), ("@b2", .string "y"),
        ("@c1", .float ⟨false, 0⟩)]
    let record : Record := [("a", .int 1), ("b", .string "z"), ("c", .int 3)]
    ∃ g h, Filter.parse [] "(a eq 1 or a eq null) and not ((b ge 'x' and b lt 'y')) and c gt 0.0" =
        .ok (some g) ∧
      Filter.parse bound "t.a IN (@a1, @a2) AND NOT ((t.b >= @b1 AND t.b < @b2)) AND t.c > @c1" =
        .ok (some h) ∧
      ∃ b, g.holds [] none record = .ok b ∧ h.holds bound (some "t") record = .ok b := by
  have parsed : Filter.parse [("m", .float ⟨false, 0⟩)]
      "a in (1, null) and b not like 'x%' and c > :m" =
      .ok (some (.combine .and [.test ⟨"a", .oneOf, .list [.literal "1", .literal "null"], false⟩,
        .test ⟨"b", .like, .literal "'x%'", true⟩,
        .test ⟨"c", .compare .gt, .param "m", false⟩])) := by
    decide +kernel
  have scalars : ∀ m ∈ [("m", Value.float ⟨false, 0⟩)], m.2.Scalar := by
    intro m member
    cases List.mem_singleton.mp member
    have positive : 0 < Binary64.limit := by decide +kernel
    exact ⟨positive, Nat.dvd_zero _⟩
  have tests {P : Comparison → Prop} (first : P ⟨"a", .oneOf, .list [.literal "1", .literal "null"], false⟩)
      (second : P ⟨"b", .like, .literal "'x%'", true⟩)
      (third : P ⟨"c", .compare .gt, .param "m", false⟩) :
      ∀ c ∈ (Filter.combine .and [.test ⟨"a", .oneOf, .list [.literal "1", .literal "null"], false⟩,
        .test ⟨"b", .like, .literal "'x%'", true⟩,
        .test ⟨"c", .compare .gt, .param "m", false⟩]).comparisons, P c := by
    intro c member
    have either : c ∈ [_, _, _] := member
    simp only [List.mem_cons, List.not_mem_nil, or_false] at either
    rcases either with rfl | rfl | rfl
    · exact first
    · exact second
    · exact third
  have agree := native_languages_agree rfl scalars parsed
    (tests (by simp [Operand.singles]) (by simp [Operand.singles]) (by simp [Operand.singles]))
    (tests (by rintro _ ⟨⟩; decide) (by rintro _ ⟨⟩; decide) (by rintro _ ⟨⟩; decide))
    (show (Entity.Compiler.mk (FieldMap.openFor .document) _ 14).compile _ = _ from rfl)
    (show (DocumentQuery.Compiler.mk "t" _ _).compile _ = _ from rfl) (by decide)
  obtain ⟨g, h, parses, parses', same⟩ := agree
  refine ⟨g, h, parses, parses', same _ (tests ?_ ?_ ?_)⟩
  · rintro - _ ⟨⟩ o - v -
    exact .inr ⟨.int 1, rfl, rfl⟩
  · intro listed
    cases listed
  · intro listed
    cases listed

/-- A null in the list of a field that is missing: the entity table's text is a chain with an equality
to null, which holds, and a list of the document store does not hold of what is missing. -/
theorem listed_null_not_alike :
    let fields := FieldMap.openFor .document
    let f : Filter := .test ⟨"v", .oneOf, .list [.literal "1", .literal "null"], false⟩
    let bound : Params := [("@v1", .int 1), ("@v2", .null)]
    Filter.parse [] "v in (1, null)" = .ok (some f) ∧
      (Entity.Compiler.mk fields [] 14).compile f = .ok ⟨"(v eq 1 or v eq null)", []⟩ ∧
      (DocumentQuery.Compiler.mk "t" fields []).compile f =
        .ok ⟨"t.v IN (@v1, @v2)", [⟨"@v1", .int 1⟩, ⟨"@v2", .null⟩]⟩ ∧
      ∃ g h, Filter.parse [] "(v eq 1 or v eq null)" = .ok (some g) ∧
        Filter.parse bound "t.v IN (@v1, @v2)" = .ok (some h) ∧
        g.holds [] none [("id", .string "a")] = .ok true ∧
        h.holds bound (some "t") [("id", .string "a")] = .ok false := by
  refine ⟨by decide +kernel, rfl, rfl,
    .combine .or [.test ⟨"v", .compare .eq, .literal "1", false⟩,
      .test ⟨"v", .compare .eq, .literal "null", false⟩],
    .test ⟨"t.v", .oneOf, .list [.param "v1", .param "v2"], false⟩, ?_, ?_, ?_, ?_⟩
  · decide +kernel
  · decide +kernel
  · decide +kernel
  · decide +kernel

end StoreGateway

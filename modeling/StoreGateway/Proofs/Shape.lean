import StoreGateway.Proofs.Operands

/-! What every filter that was read from text looks like. -/

namespace StoreGateway

namespace Operand

/-- An operand that stands for one value. -/
def IsSingle : Operand → Prop
  | .literal _ => True
  | .param _ => True
  | .call raw => Filter.IsCall raw.toList
  | _ => False

end Operand

namespace Comparison

/-- A comparison whose operand is of the kind that its relation takes. -/
structure Formed (c : Comparison) : Prop where
  field : Filter.IsWord c.field.toList
  nothing : c.relation.takesNothing = true → c.operand = .absent
  list : c.relation.takesList = true →
    ∃ item items, c.operand = .list (item :: items) ∧ ∀ o ∈ item :: items, o.IsSingle
  single : c.relation.takesNothing = false → c.relation.takesList = false → c.operand.IsSingle

theorem Formed.relation_of_list {c : Comparison} {items : List Operand} (formed : c.Formed)
    (list : c.operand = .list items) : c.relation = .oneOf := by
  rcases c with ⟨name, relation, operand, negated⟩
  cases list
  cases relation with
  | oneOf => rfl
  | compare k => exact (formed.single rfl rfl).elim
  | like => exact (formed.single rfl rfl).elim
  | isNull => cases formed.nothing rfl
  | isNotNull => cases formed.nothing rfl

theorem Formed.items {c : Comparison} {items : List Operand} (formed : c.Formed)
    (list : c.operand = .list items) : items ≠ [] ∧ ∀ o ∈ items, o.IsSingle := by
  obtain ⟨item, more, same, all⟩ := formed.list (by rw [formed.relation_of_list list]; rfl)
  rw [list] at same
  cases same
  exact ⟨List.cons_ne_nil item more, all⟩

end Comparison

namespace Filter

/-- Chains have children, a negation has one, and all comparisons are as demanded. -/
inductive Formed (demand : Comparison → Prop) : Filter → Prop
  | test {c : Comparison} (formed : demand c) : Formed demand (.test c)
  | negation {f : Filter} (formed : Formed demand f) : Formed demand (.combine .not [f])
  | chain {op : Connective} {children : List Filter} (is : op ≠ .not) (present : children ≠ [])
      (formed : ∀ f ∈ children, Formed demand f) : Formed demand (.combine op children)

variable {demand : Comparison → Prop}

theorem Formed.operandsOf {op : Connective} {f : Filter} (formed : Formed demand f) :
    f.operandsOf op ≠ [] ∧ ∀ g ∈ f.operandsOf op, Formed demand g := by
  cases f with
  | test c => exact ⟨by simp [Filter.operandsOf], fun g member => by
      rw [List.mem_singleton.mp member]; exact formed⟩
  | combine inner children =>
    by_cases same : inner = op
    · rw [Filter.operandsOf, if_pos same]
      cases formed with
      | negation formed => exact ⟨by simp, fun g member => by
          rw [List.mem_singleton.mp member]; exact formed⟩
      | chain is present formed => exact ⟨present, formed⟩
    · rw [Filter.operandsOf, if_neg same]
      exact ⟨by simp, fun g member => by rw [List.mem_singleton.mp member]; exact formed⟩

theorem Formed.join {op : Connective} {left right : Filter} (is : op ≠ .not)
    (first : Formed demand left) (second : Formed demand right) :
    Formed demand (join op left right) := by
  refine .chain is ?_ ?_
  · have some : left.operandsOf op ≠ [] := first.operandsOf.1
    simp [some]
  · intro f member
    rcases List.mem_append.mp member with member | member
    · exact first.operandsOf.2 f member
    · exact second.operandsOf.2 f member

theorem formed_joined {t : Token} {joined : Filter → Filter → Filter} {left right : Filter}
    (is : orJoiner? t = some joined) (first : Formed demand left) (second : Formed demand right) :
    Formed demand (joined left right) := by
  unfold orJoiner? at is
  split at is
  · cases is; exact first.join (by decide) second
  · split at is
    · cases is; exact .negation (first.join (by decide) second)
    · cases is

theorem isWord_of_lexed {text : List Char} {all front ts : List Token} {t : Token} {w : String}
    (read : tokensFrom 0 text = .ok all) (whole : all = front ++ t :: ts)
    (is : t.lexeme = .word w) : IsWord w.toList := by
  obtain ⟨m, lexes⟩ := lexes_of_tokensFrom read
  rw [whole] at lexes
  obtain ⟨mid, behind, -, -, ⟨c, cs, -, -, starts⟩, -⟩ := lexes.split
  rw [is] at starts
  cases starts with
  | word letter =>
    rw [String.toList_ofList]
    refine ⟨by simp, fun d member => ?_⟩
    rcases List.mem_cons.mp member with rfl | member
    · exact letter
    · exact List.all_eq_true.mp List.all_takeWhile d member

variable {text : List Char} {params : Params} {all ts rest : List Token}

theorem isSingle_of_reads {o : Operand} (read : tokensFrom 0 text = .ok all) (inside : ts <:+ all)
    (reads : ReadsOperand ⟨text, params⟩ ts o rest) : o.IsSingle := by
  rcases kind_of_reads reads with ⟨raw, rfl⟩ | ⟨name, rfl⟩ | ⟨raw, rfl⟩
  · trivial
  · trivial
  · obtain ⟨front, whole⟩ := inside
    exact isCall_of_reads read whole.symm reads

theorem isSingle_of_readsItems {items : List Operand} (read : tokensFrom 0 text = .ok all)
    (inside : ts <:+ all) (reads : ReadsItems ⟨text, params⟩ ts items rest) :
    items ≠ [] ∧ ∀ o ∈ items, o.IsSingle := by
  induction reads with
  | last first is =>
    refine ⟨by simp, fun o member => ?_⟩
    rw [List.mem_singleton.mp member]
    exact isSingle_of_reads read inside first
  | @more ts mid rest t item items first is others ih =>
    have reach : mid <:+ all := ((List.suffix_cons t mid).trans first.suffix).trans inside
    refine ⟨by simp, fun o member => ?_⟩
    rcases List.mem_cons.mp member with rfl | member
    · exact isSingle_of_reads read inside first
    · exact (ih reach).2 o member

theorem formed_of_readsComparison {field : String} {c : Comparison} (is : IsWord field.toList)
    (read : tokensFrom 0 text = .ok all) (inside : ts <:+ all)
    (reads : ReadsComparison ⟨text, params⟩ field ts c rest) : c.Formed := by
  cases reads with
  | @nothing rest r relation takes =>
    have alone : r.takesList = false := by cases r <;> first | rfl | cases takes
    refine ⟨is, fun _ => rfl, fun list => ?_, fun other => ?_⟩
    · rw [alone] at list; cases list
    · rw [takes] at other; cases other
  | @list mid rest t r items relation takes opens operands =>
    have something : r.takesNothing = false := by cases r <;> first | rfl | cases takes
    have reach : mid <:+ all := (List.suffix_cons t mid).trans <|
      (parseRelation_suffix relation).trans <| (skipNot_suffix ts).trans inside
    obtain ⟨present, singles⟩ := isSingle_of_readsItems read reach operands
    refine ⟨is, fun nothing => ?_, fun _ => ?_, fun _ other => ?_⟩
    · rw [something] at nothing; cases nothing
    · cases items with
      | nil => exact absurd rfl present
      | cons item items => exact ⟨item, items, rfl, singles⟩
    · rw [takes] at other; cases other
  | @single mid rest r o relation takes alone operand =>
    have reach : mid <:+ all :=
      (parseRelation_suffix relation).trans <| (skipNot_suffix ts).trans inside
    refine ⟨is, fun nothing => ?_, fun list => ?_, fun _ _ => isSingle_of_reads read reach operand⟩
    · rw [takes] at nothing; cases nothing
    · rw [alone] at list; cases list

/-- The filter to the left of a chain that goes on. -/
def Rank.left? : Rank → Option Filter
  | .orRest left => some left
  | .andRest left => some left
  | _ => none

theorem Derives.formed {rank : Rank} {f : Filter} (derives : Derives ⟨text, params⟩ rank ts f rest)
    (read : tokensFrom 0 text = .ok all) (inside : ts <:+ all)
    (left : ∀ g ∈ rank.left?, Formed Comparison.Formed g) : Formed Comparison.Formed f := by
  induction derives with
  | or first _ ih ih' =>
    refine ih' (first.suffix.trans inside) fun g member => ?_
    cases member
    exact ih inside nofun
  | orEnd ends => exact left _ rfl
  | @orMore t ts mid rest before right f joined is next _ ih ih' =>
    have reach := (List.suffix_cons t ts).trans inside
    refine ih' (next.suffix.trans reach) fun g member => ?_
    cases member
    exact formed_joined is (left before rfl) (ih reach nofun)
  | and first _ ih ih' =>
    refine ih' (first.suffix.trans inside) fun g member => ?_
    cases member
    exact ih inside nofun
  | andEnd ends => exact left _ rfl
  | @andMore t ts mid rest before right f is next _ ih ih' =>
    have reach := (List.suffix_cons t ts).trans inside
    refine ih' (next.suffix.trans reach) fun g member => ?_
    cases member
    exact (left before rfl).join (by decide) (ih reach nofun)
  | negation is _ ih => exact .negation (ih ((List.suffix_cons _ _).trans inside) nofun)
  | plain bare _ ih => exact ih inside nofun
  | group opens _ closes ih => exact ih ((List.suffix_cons _ _).trans inside) nofun
  | @comparison t ts rest field c is reads =>
    obtain ⟨front, whole⟩ := inside
    refine .test (formed_of_readsComparison (isWord_of_lexed read whole.symm is) read ?_ reads)
    exact (List.suffix_cons t ts).trans ⟨front, whole⟩

theorem parse_eq_ok_iff {f : Filter} {s : String} :
    parse params s = .ok (some f) ↔
      Text.trimChars s.toList ≠ [] ∧ ∃ all, tokensFrom 0 (Text.trimChars s.toList) = .ok all ∧
        Derives ⟨Text.trimChars s.toList, params⟩ .or all f [] := by
  unfold parse
  by_cases empty : Text.trimChars s.toList = []
  · constructor
    · intro parsed
      simp only [empty, if_true] at parsed
      cases parsed
    · rintro ⟨present, -⟩
      exact absurd empty present
  · simp only [empty, if_false]
    cases tokens : tokensFrom 0 (Text.trimChars s.toList) with
    | error fault =>
      constructor
      · intro parsed; cases parsed
      · rintro ⟨-, all, read, -⟩; cases read
    | ok all =>
      cases found : ofTokens ⟨Text.trimChars s.toList, params⟩ all with
      | error fault =>
        constructor
        · intro parsed; simp only [bind, Except.bind, found] at parsed; cases parsed
        · rintro ⟨-, all', read, derives⟩
          cases read
          rw [ofTokens_eq_ok_iff.mpr derives] at found
          cases found
      | ok g =>
        constructor
        · intro parsed
          simp only [bind, Except.bind, found] at parsed
          cases parsed
          exact ⟨empty, all, rfl, ofTokens_eq_ok_iff.mp found⟩
        · rintro ⟨-, all', read, derives⟩
          cases read
          rw [ofTokens_eq_ok_iff.mpr derives] at found
          cases found
          simp only [bind, Except.bind, ofTokens_eq_ok_iff.mpr derives]
          rfl

theorem formed_of_parse {f : Filter} {s : String} (parsed : parse params s = .ok (some f)) :
    Formed Comparison.Formed f := by
  obtain ⟨-, all, read, derives⟩ := parse_eq_ok_iff.mp parsed
  exact derives.formed read List.suffix_rfl nofun

end Filter

end StoreGateway

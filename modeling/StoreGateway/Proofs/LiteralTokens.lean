import StoreGateway.Proofs.Languages
import StoreGateway.Proofs.Spans

/-!
Literals as tokens. Main statement: the literal of a value is one token and is read as the value, and
a string in single quotes that is a token is the literal of what it is read as.
-/

namespace StoreGateway.Filter

open Literal

theorem untilQuote_body {quote : Char} {cs inside after : List Char}
    (ends : untilQuote quote cs = some (inside, after)) :
    ∃ body, inside = double quote body ++ [quote] := by
  induction cs using untilQuote.induct quote generalizing inside after with
  | case1 => simp [untilQuote] at ends
  | case2 =>
    simp only [untilQuote, if_true, Option.some.injEq, Prod.mk.injEq] at ends
    rcases ends with ⟨rfl, rfl⟩
    exact ⟨[], rfl⟩
  | case3 c different => simp [untilQuote, different] at ends
  | case4 rest ih =>
    simp only [untilQuote, if_true, Option.map_eq_some_iff, Prod.exists, Prod.mk.injEq] at ends
    obtain ⟨inside, after, found, rfl, rfl⟩ := ends
    obtain ⟨body, rfl⟩ := ih found
    exact ⟨quote :: body, by rw [double_cons_quote]; rfl⟩
  | case5 d rest different =>
    simp only [untilQuote, if_true, different, if_false, Option.some.injEq,
      Prod.mk.injEq] at ends
    rcases ends with ⟨rfl, rfl⟩
    exact ⟨[], rfl⟩
  | case6 c d rest different ih =>
    simp only [untilQuote, different, if_false, Option.map_eq_some_iff, Prod.exists,
      Prod.mk.injEq] at ends
    obtain ⟨inside, after, found, rfl, rfl⟩ := ends
    obtain ⟨body, rfl⟩ := ih found
    exact ⟨c :: body, by rw [double_cons_other different]; rfl⟩

theorem Starts.quoted_body {c : Char} {cs rest : List Char} {raw : String}
    (starts : Starts c cs (.quoted raw) rest) :
    ∃ body, raw.toList = c :: (double c body ++ [c]) := by
  cases starts with
  | quoted _ ends =>
    obtain ⟨body, rfl⟩ := untilQuote_body ends
    exact ⟨body, String.toList_ofList⟩

theorem quote_of_token {source raw : String} {ts : List Token} {t : Token}
    (read : tokenize source = .ok ts) (member : t ∈ ts) (is : t.lexeme = .quoted raw)
    (single : raw.toList.head? = some '\'') : ∃ text, raw = quote text := by
  obtain ⟨m, lexes⟩ := lexes_of_tokensFrom read
  obtain ⟨c, more, behind, -, -, starts⟩ := lexes.begins member
  rw [is] at starts
  obtain ⟨body, whole⟩ := starts.quoted_body
  rw [whole] at single
  obtain rfl : c = '\'' := Option.some.inj single
  refine ⟨String.ofList body, ?_⟩
  rw [← String.toList_inj, whole, toList_quote, String.toList_ofList]

theorem tokenize_text (v : Value) :
    ∃ found, (found = .word (text v) ∨ found = .quoted (text v)) ∧
      tokenize (text v) = .ok [⟨found, 0, (text v).utf8ByteSize⟩] := by
  rw [utf8ByteSize_eq_bytes]
  rcases text_cases v with ⟨is, -⟩ | ⟨s, same⟩
  · have spelled := spelled_word is
    rw [String.ofList_toList] at spelled
    exact ⟨_, .inl rfl, spelled.tokensFrom⟩
  · rw [same]
    exact ⟨_, .inr rfl, (spelled_quote s).tokensFrom⟩

/-- Literals of scalars are read back exactly, but for whole numbers beyond 64 bits with a sign; and
so are the strings in single quotes that any text contains. -/
theorem literals_exact :
    (∀ v, ∃ found, (found = .word (text v) ∨ found = .quoted (text v)) ∧
      tokenize (text v) = .ok [⟨found, 0, (text v).utf8ByteSize⟩] ∧
        (v.Signed → infer found.text = v)) ∧
      ∀ (source : String) (ts : List Token) (t : Token) (raw : String),
        tokenize source = .ok ts → t ∈ ts → t.lexeme = .quoted raw →
          raw.toList.head? = some '\'' → text (infer raw) = raw := by
  refine ⟨fun v => ?_, fun source ts t raw read member is single => ?_⟩
  · obtain ⟨found, kind, read⟩ := tokenize_text v
    have spelled : found.text = text v := by
      rcases kind with rfl | rfl <;> rfl
    refine ⟨found, kind, read, fun signed => ?_⟩
    rw [spelled]
    exact infer_text (readable_of_signed signed)
  · obtain ⟨s, rfl⟩ := quote_of_token read member is single
    rw [infer_quote]
    rfl

theorem literals_exact_of_doubled :
    let ts : List Token := [⟨.word "x", 0, 1⟩, ⟨.symbol .equal, 1, 2⟩,
      ⟨.quoted "'''''a'''", 2, 11⟩, ⟨.word "and", 11, 14⟩]
    tokenize "x='''''a'''and" = .ok ts ∧ text (infer "'''''a'''") = "'''''a'''" ∧
      Value.Signed (.string "''a'") ∧
        ∃ found, tokenize "'''''a'''" = .ok [⟨found, 0, 9⟩] ∧ infer found.text = .string "''a'" := by
  intro ts
  have read : tokenize "x='''''a'''and" = .ok ts := by decide +kernel
  have signed : Value.Signed (.string "''a'") := ⟨trivial, nofun⟩
  obtain ⟨written, quoted⟩ := literals_exact
  obtain ⟨found, -, alone, exact⟩ := written (.string "''a'")
  refine ⟨read, ?_, signed, found, alone, exact signed⟩
  exact quoted _ ts ⟨.quoted "'''''a'''", 2, 11⟩ _ read (by decide) rfl rfl

end StoreGateway.Filter

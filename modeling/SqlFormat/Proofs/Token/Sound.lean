import Mathlib
import SqlFormat.Proofs.Token.Lossless
import SqlFormat.Proofs.Token.Reread

/-!
# What the lexer makes of a text

Facts that tie the kind of a token to its text. They hold of every token of every text.

Results: `Reads.sound`, `sound_of_mem`, `tidy_of_mem`, `not_white_of_mem`, `spansLines_of_mem`.
-/

namespace SqlFormat

open Text

/-- The kinds of tokens that may be left open. -/
def Lexer.canBeOpen (kind : TokenKind) : Bool :=
  kind == .blockComment || kind == .string || kind == .namedPlaceholder

/-- What the kind of a token says about its text. -/
structure Token.Sound (dialect : Dialect) (token : Token) : Prop where
  /-- No token but white space starts with a blank. -/
  head : token.kind ≠ .whitespace → ∃ c cs, token.text.toList = c :: cs ∧ isBlank c = false
  /-- Keywords are phrases. -/
  keyword : token.isKeyword = true → ∃ ws, Lexer.Phrased token.text.toList ws
  /-- Square brackets are brackets only where the dialect has them. -/
  square : token.isBracket = true → token.text = "[" ∨ token.text = "]" →
    dialect.lexicon.bracketParens = true
  /-- A vertical bar is always an operator. -/
  bar : token.text.toList.head? = some '|' → token.kind = .operator
  /-- Comments and literals start with no white space of any form. -/
  opening : token.kind = .lineComment ∨ Lexer.canBeOpen token.kind = true →
    ∃ c ∈ token.text.toList.head?, isWhite c = false

/-- A placeholder of which the name stands in quotes or square brackets. -/
def Token.isQuotedName (token : Token) : Bool :=
  token.kind == .namedPlaceholder &&
    token.text.toList[1]?.any ['\x22', '\x60', '\x27', '['].contains

/-- A token of a kind that may go over several lines. -/
def Token.SpansLines (token : Token) : Prop :=
  token.kind = .whitespace ∨ token.kind = .blockComment ∨ token.kind = .string ∨
    token.isQuotedName = true ∨ token.isKeyword = true

namespace Lexer

variable {dialect : Dialect} {memory : Memory} {text : List Char} {found : Lexeme}

theorem Reads.head_not_blank (h : Reads dialect.lexicon memory text found) (hne : text ≠ [])
    (hk : found.kind ≠ .whitespace) :
    ∃ c cs, text.take found.length = c :: cs ∧ isBlank c = false := by
  obtain ⟨c, cs, rfl⟩ := List.exists_cons_of_ne_nil hne
  obtain ⟨n, hn⟩ := Nat.exists_eq_succ_of_ne_zero (Nat.pos_iff_ne_zero.mp h.length_pos)
  refine ⟨c, cs.take n, by rw [hn, Nat.succ_eq_add_one, List.take_succ_cons], ?_⟩
  rw [Bool.eq_false_iff]
  intro hb
  exact hk (h.kind_eq_whitespace.mpr hb)

/-- Only the rule for words reads keywords. -/
theorem Reads.keyword (h : Reads dialect.lexicon memory text found) (pos : Nat)
    (hk : (found.token text pos).isKeyword = true) :
    memory.last.any (·.isOperator ".") = false ∧ text.head?.any Char.isAlpha = true ∧
      ∃ kind key, keyword? dialect.lexicon text = some (kind, key, found.length) ∧
        found = .plain (memory.refine kind key (text.drop found.length)) found.length := by
  have hplain : found.kind ∈ [.whitespace, .lineComment, .blockComment, .string, .word,
      .indexedPlaceholder, .namedPlaceholder, .number, .operator] → False := by
    intro hmem
    have hnone : ∀ kind ∈ [TokenKind.whitespace, .lineComment, .blockComment, .string, .word,
        .indexedPlaceholder, .namedPlaceholder, .number, .operator],
        kind.isReserved = false ∧ kind ≠ .openParen ∧ kind ≠ .closeParen := by decide
    obtain ⟨hr, ho, hc⟩ := hnone _ hmem
    simp [Token.isKeyword, hr, ho, hc] at hk
  cases h with
  | blanks h => obtain ⟨_, rfl⟩ := blanks?_eq_some h; exact (hplain (by simp [Lexeme.plain])).elim
  | comment _ h =>
    rcases comment?_eq_some h with ⟨_, rfl⟩ | ⟨_, _, rfl⟩ <;> exact (hplain (by simp [Lexeme.plain])).elim
  | dollar _ _ h => obtain ⟨_, n, _, rfl⟩ := dollarString?_eq_some h; exact (hplain (by simp [Lexeme.plain])).elim
  | quoted _ _ _ h =>
    obtain ⟨c, cs, style, _, _, rfl⟩ := quotedString?_eq_some h
    exact (hplain (by simp [Lexeme.plain])).elim
  | prefixed _ _ _ _ h =>
    obtain ⟨_, _, _, _, _, rfl⟩ := prefixedString?_eq_some h
    exact (hplain (by simp [Lexeme.plain])).elim
  | word _ h =>
    rcases (word?_eq_some h).2 with ⟨_, rfl⟩ | ⟨hlast, halpha, kind, key, length, hw, rfl⟩
    · exact (hplain (by simp [Lexeme.plain])).elim
    · exact ⟨hlast, halpha, kind, key, hw, rfl⟩
  | indexed _ _ h =>
    obtain ⟨c, cs, _, _, ⟨_, rfl⟩ | ⟨_, _, rfl⟩⟩ := indexedPlaceholder?_eq_some h <;>
      exact (hplain (by simp)).elim
  | named _ _ _ h =>
    obtain ⟨_, _, _, _, _, _, _, rfl⟩ := namedPlaceholder?_eq_some h
    exact (hplain (by simp)).elim
  | sessionVariable _ _ _ _ h =>
    obtain ⟨_, _, _, _, _, _, _, rfl⟩ := sessionVariable?_eq_some h
    exact (hplain (by simp [Lexeme.plain])).elim
  | number _ _ _ _ _ h =>
    obtain ⟨_, rfl⟩ := number?_eq_some h
    exact (hplain (by simp [Lexeme.plain])).elim
  | bracket _ _ _ _ _ _ h =>
    -- What the rule for brackets reads is a bracket, and so no keyword.
    obtain ⟨c, cs, rfl, ⟨rfl, rfl⟩ | ⟨rfl, rfl⟩ | ⟨_, rfl, rfl⟩ | ⟨_, rfl, rfl⟩⟩ :=
      bracket?_eq_some h <;> exact absurd hk (by simp [Token.isKeyword, Token.isBracket,
        Lexeme.token, Lexeme.plain, TokenKind.isReserved])
  | operator => exact (hplain (by simp [Lexer.operator, Lexeme.plain])).elim

/-- A bracket is read by the rule for brackets. -/
theorem Reads.bracket? (h : Reads dialect.lexicon memory text found) (pos : Nat)
    (hk : (found.token text pos).isBracket = true) : bracket? dialect.lexicon text = some found := by
  have hplain : found.kind ≠ .openParen → found.kind ≠ .closeParen → False := by
    intro ho hc
    simp [Token.isBracket, ho, hc] at hk
  cases h with
  | blanks h => obtain ⟨_, rfl⟩ := blanks?_eq_some h; exact (hplain (by simp [Lexeme.plain]) (by simp [Lexeme.plain])).elim
  | comment _ h =>
    rcases comment?_eq_some h with ⟨_, rfl⟩ | ⟨_, _, rfl⟩ <;> exact (hplain (by simp [Lexeme.plain]) (by simp [Lexeme.plain])).elim
  | dollar _ _ h => obtain ⟨_, n, _, rfl⟩ := dollarString?_eq_some h; exact (hplain (by simp [Lexeme.plain]) (by simp [Lexeme.plain])).elim
  | quoted _ _ _ h =>
    obtain ⟨c, cs, style, _, _, rfl⟩ := quotedString?_eq_some h
    exact (hplain (by simp [Lexeme.plain]) (by simp [Lexeme.plain])).elim
  | prefixed _ _ _ _ h =>
    obtain ⟨_, _, _, _, _, rfl⟩ := prefixedString?_eq_some h
    exact (hplain (by simp [Lexeme.plain]) (by simp [Lexeme.plain])).elim
  | word _ h =>
    rcases (word?_eq_some h).2 with ⟨_, rfl⟩ | ⟨_, halpha, kind, key, length, hw, rfl⟩
    · exact (hplain (by simp [Lexeme.plain]) (by simp [Lexeme.plain])).elim
    · -- A keyword starts with a letter.
      obtain ⟨ws, hws⟩ := phrased_of_keyword hw halpha
      have hhead := (hws.respaced .preserve).head.1
      simp only [Token.isBracket, Lexeme.token_text, Lexeme.plain, Bool.and_eq_true,
        Bool.or_eq_true, beq_iff_eq] at hk
      rcases hk.2 with ((h | h) | h) | h <;>
        · rw [← String.toList_inj, String.toList_ofList] at h
          rw [h] at hhead
          exact absurd hhead (by decide)
  | indexed _ _ h =>
    obtain ⟨c, cs, _, _, ⟨_, rfl⟩ | ⟨_, _, rfl⟩⟩ := indexedPlaceholder?_eq_some h <;>
      exact (hplain (by simp) (by simp)).elim
  | named _ _ _ h =>
    obtain ⟨_, _, _, _, _, _, _, rfl⟩ := namedPlaceholder?_eq_some h
    exact (hplain (by simp) (by simp)).elim
  | sessionVariable _ _ _ _ h =>
    obtain ⟨_, _, _, _, _, _, _, rfl⟩ := sessionVariable?_eq_some h
    exact (hplain (by simp [Lexeme.plain]) (by simp [Lexeme.plain])).elim
  | number _ _ _ _ _ h =>
    obtain ⟨_, rfl⟩ := number?_eq_some h
    exact (hplain (by simp [Lexeme.plain]) (by simp [Lexeme.plain])).elim
  | bracket _ _ _ _ _ _ h => exact h
  | operator => exact (hplain (by simp [Lexer.operator, Lexeme.plain]) (by simp [Lexer.operator, Lexeme.plain])).elim

/-- What starts with a vertical bar is an operator. -/
theorem Reads.bar {cs : List Char} (h : Reads dialect.lexicon memory ('|' :: cs) found) :
    found = Lexer.operator ('|' :: cs) := by
  obtain ⟨hi, hn, hv⟩ := not_sigil dialect (c := '|') (by decide)
  have hreads : Reads dialect.lexicon memory ('|' :: cs) (Lexer.operator ('|' :: cs)) :=
    .operator
      (.of_head (by decide) (by decide) (by decide) (by decide)
        (prefixedString?_none_of_head dialect.delimits (by decide)))
      (word?_eq_none.mpr (by rw [List.head?_cons, Option.any_some]; decide)) (indexedPlaceholder?_none_of_head hi)
      (namedPlaceholder?_none_of_head hn) (sessionVariable?_none_of_head hv)
      (by simp [number?, Memory.startsFraction]) (by simp [Lexer.bracket?])
  rw [← h.eq, hreads.eq]

/-- Comments and literals start with no white space of any form. -/
theorem Reads.opening (h : Reads dialect.lexicon memory text found)
    (hk : found.kind = .lineComment ∨ canBeOpen found.kind = true) :
    ∃ c ∈ text.head?, isWhite c = false := by
  cases h with
  | blanks h =>
    obtain ⟨_, rfl⟩ := blanks?_eq_some h
    exact absurd hk (by simp [Lexeme.plain, canBeOpen])
  | comment _ h =>
    rcases comment?_eq_some h with ⟨hl, _⟩ | ⟨_, hb, _⟩
    · rcases (startsLineComment_iff dialect text).mp hl with ⟨_, rest, rfl⟩ | ⟨_, rest, rfl⟩
      · exact ⟨'-', rfl, by decide⟩
      · exact ⟨'#', rfl, by decide⟩
    · obtain ⟨rest, rfl⟩ := List.isPrefixOf_iff_prefix.mp hb
      exact ⟨'/', rfl, by decide⟩
  | dollar _ _ h =>
    obtain ⟨_, n, hn, _⟩ := dollarString?_eq_some h
    obtain ⟨tag, htag, _⟩ := Option.map_eq_some_iff.mp hn
    obtain ⟨rest, rfl⟩ := Scan.isPrefix_of_dollarTag? htag
    have hhead := (dollarTag?_append htag []).2.1
    exact ⟨'$', by rw [Option.mem_def, List.head?_append, hhead]; rfl, by decide⟩
  | quoted _ _ _ h =>
    obtain ⟨c, cs, style, rfl, hs, _⟩ := quotedString?_eq_some h
    obtain ⟨hmem, rfl⟩ := stringStyle?_eq_some hs
    have hopen := dialect.delimits.opening style hmem
    refine ⟨_, rfl, ?_⟩
    simp only [List.mem_cons, List.not_mem_nil, or_false] at hopen
    rcases hopen with h | h | h | h <;> rw [h] <;> decide
  | prefixed _ _ _ _ h =>
    obtain ⟨letter, cs, backslash, rfl, hl, _⟩ := prefixedString?_eq_some h
    obtain ⟨l₁, l₂, hmem, _⟩ := List.lookup_eq_some_iff.mp hl
    have halpha := dialect.delimits.letters (letter, backslash) (by rw [hmem]; simp)
    exact ⟨letter, rfl, not_isWhite_of_isKeywordChar (by simp [isKeywordChar, Char.isAlphanum, halpha])⟩
  | word _ h =>
    rcases (word?_eq_some h).2 with ⟨_, rfl⟩ | ⟨_, _, kind, key, length, hw, rfl⟩
    · exact absurd hk (by simp [Lexeme.plain, canBeOpen])
    · have hkind := refine_kind memory key (text.drop length)
        (classify_kind (keyword?_eq_some hw).2)
      have hnone : ∀ kind : TokenKind, kind.isReserved = true ∨ kind = .openParen ∨
          kind = .closeParen → ¬(kind = .lineComment ∨ canBeOpen kind = true) := by
        intro kind
        cases kind <;> decide
      exact absurd hk (hnone _ hkind)
  | indexed _ _ h =>
    obtain ⟨c, cs, _, _, ⟨_, rfl⟩ | ⟨_, _, rfl⟩⟩ := indexedPlaceholder?_eq_some h <;>
      exact absurd hk (by simp [canBeOpen])
  | named _ _ _ h =>
    obtain ⟨c, cs, _, _, rfl, hc, _, _⟩ := namedPlaceholder?_eq_some h
    exact ⟨c, rfl, named_not_white hc⟩
  | sessionVariable _ _ _ _ h =>
    obtain ⟨_, _, _, _, _, _, _, rfl⟩ := sessionVariable?_eq_some h
    exact absurd hk (by simp [Lexeme.plain, canBeOpen])
  | number _ _ _ _ _ h =>
    obtain ⟨_, rfl⟩ := number?_eq_some h
    exact absurd hk (by simp [Lexeme.plain, canBeOpen])
  | bracket _ _ _ _ _ _ h =>
    obtain ⟨c, cs, _, ⟨_, rfl⟩ | ⟨_, rfl⟩ | ⟨_, _, rfl⟩ | ⟨_, _, rfl⟩⟩ := bracket?_eq_some h <;>
      exact absurd hk (by decide)
  | operator => exact absurd hk (by simp [Lexer.operator, Lexeme.plain, canBeOpen])

theorem Reads.sound (h : Reads dialect.lexicon memory text found) (hne : text ≠ []) (pos : Nat) :
    (found.token text pos).Sound dialect where
  head hk := by simpa using h.head_not_blank hne hk
  keyword hk := by
    obtain ⟨_, halpha, kind, key, hw, _⟩ := h.keyword pos hk
    obtain ⟨ws, hws⟩ := phrased_of_keyword hw halpha
    exact ⟨ws, by simpa using hws⟩
  square hk htext := by
    obtain ⟨c, cs, rfl, ⟨rfl, rfl⟩ | ⟨rfl, rfl⟩ | ⟨hp, _⟩ | ⟨hp, _⟩⟩ :=
      bracket?_eq_some (h.bracket? pos hk)
    · exact absurd htext (by simp [Lexeme.token, Lexeme.plain])
    · exact absurd htext (by simp [Lexeme.token, Lexeme.plain])
    · exact hp
    · exact hp
  bar hhead := by
    obtain ⟨c, cs, rfl⟩ := List.exists_cons_of_ne_nil hne
    have hc : c = '|' := by
      have hpos := h.length_pos
      simpa [List.head?_take, hpos.ne'] using hhead
    subst hc
    rw [Lexeme.token_kind, h.bar]
    rfl
  opening hk := by
    have hpos := h.length_pos
    simpa [List.head?_take, hpos.ne'] using h.opening hk

/-- What starts with a letter is a string with a letter before its quote, or a word. -/
theorem Reads.alpha {memory : Memory} {c : Char} {cs : List Char} {found : Lexeme}
    (h : Reads dialect.lexicon memory (c :: cs) found) (hc : c.isAlpha = true) :
    (found.kind = .string ∧ 2 ≤ found.length ∧ cs.head? = some '\x27') ∨
      word? dialect.lexicon memory (c :: cs) = some found := by
  have hstart : Scan.isWordStart c = true := by simp [Scan.isWordStart, hc]
  have hno : ∀ {l : List Char}, l.all (!Scan.isWordStart ·) = true → c ∉ l :=
    isWordStart_not_mem hstart
  have hword : ∀ {memory}, word? dialect.lexicon memory (c :: cs) = none → False := by
    intro memory hw
    rw [word?_eq_none] at hw
    simp [hstart] at hw
  cases h with
  | blanks h =>
    have := (blanks?_eq_some h).1
    rw [List.head?_cons, Option.any_some, not_isBlank_of_isAlpha hc] at this
    cases this
  | comment _ h => rw [comment?_none_of_head (hno (by decide))] at h; cases h
  | dollar _ _ h =>
    rw [dollarString?_none_of_head (fun h => hno (l := ['$']) (by decide) (by simp [h]))] at h
    cases h
  | quoted _ _ _ h =>
    rw [quotedString?_cons.mpr (stringStyle?_none dialect.delimits (hno (by decide)))] at h
    cases h
  | prefixed _ _ _ _ h =>
    obtain ⟨letter, cs', backslash, heq, _, rfl⟩ := prefixedString?_eq_some h
    obtain ⟨rfl, rfl⟩ := List.cons.inj heq
    refine .inl ⟨rfl, ?_, rfl⟩
    simp only [Lexeme.plain, Scan.string]
    omega
  | word _ h => exact .inr h
  | indexed _ hw => exact (hword hw).elim
  | named _ hw => exact (hword hw).elim
  | sessionVariable _ hw => exact (hword hw).elim
  | number _ hw => exact (hword hw).elim
  | bracket _ hw => exact (hword hw).elim
  | operator _ hw => exact (hword hw).elim

/-- What the rule for words reads as a phrase is a keyword. -/
theorem isKeyword_of_keyword? (memory : Memory) {text : List Char} {kind : TokenKind} {key : String}
    {length : Nat} (h : keyword? dialect.lexicon text = some (kind, key, length))
    (halpha : text.head?.any Char.isAlpha = true) (pos : Nat) :
    ((Lexeme.plain (memory.refine kind key (text.drop length)) length).token text pos).isKeyword =
      true := by
  have hkind := refine_kind memory key (text.drop length)
    (classify_kind (keyword?_eq_some h).2)
  obtain ⟨ws, hws⟩ := phrased_of_keyword h halpha
  have hhead := (hws.respaced .preserve).head.1
  have hbracket : ∀ b ∈ ["(", ")", "[", "]"], String.ofList (text.take length) ≠ b := by
    rintro b hb rfl
    rw [← String.toList_ofList (l := text.take length)] at hhead
    revert hhead hb
    generalize String.ofList (text.take length) = s
    simp only [List.mem_cons, List.not_mem_nil, or_false]
    rintro hhead (rfl | rfl | rfl | rfl) <;> exact absurd hhead (by decide)
  simp only [List.mem_cons, List.not_mem_nil, or_false, forall_eq_or_imp, forall_eq] at hbracket
  simp only [Token.isKeyword, Token.isBracket, Lexeme.token_kind, Lexeme.token_text, Lexeme.plain,
    Bool.or_eq_true, Bool.and_eq_true, beq_iff_eq, Bool.not_eq_true', Bool.and_eq_false_iff,
    Bool.or_eq_false_iff, beq_eq_false_iff_ne]
  tauto

/-! ## The ends of tokens -/

theorem stringBody_tidy (style : StringStyle) (hwhite : isWhite style.closing = false)
    (b : List Char) : b.drop (Scan.stringBody style b) = [] ∨
      Tidy (b.take (Scan.stringBody style b)) := by
  have hlen : Scan.stringBody style (b.take (Scan.stringBody style b) ++
      b.drop (Scan.stringBody style b)) = (b.take (Scan.stringBody style b)).length := by
    rw [List.take_append_drop, List.length_take, min_eq_left (Scan.stringBody_le style b)]
  cases hc : Scan.unclosed style (b.take (Scan.stringBody style b)) with
  | true => exact .inl (Scan.eq_nil_of_unclosed hlen hc)
  | false =>
    exact .inr ⟨style.closing, Scan.getLast?_of_closed hlen hc, not_isBlank_of_not_isWhite hwhite⟩

theorem through_tidy {p : List Char} (hp : Tidy p) (b : List Char) :
    b.drop (Scan.through p b) = [] ∨ Tidy (b.take (Scan.through p b)) := by
  have hlen : Scan.through p (b.take (Scan.through p b) ++ b.drop (Scan.through p b)) =
      (b.take (Scan.through p b)).length := by
    rw [List.take_append_drop, List.length_take, min_eq_left (Scan.through_le p b)]
  have hne : p ≠ [] := by
    rintro rfl
    obtain ⟨c, hc, _⟩ := hp
    cases hc
  rcases Scan.through_closed hne hlen with ⟨hr, _⟩ | ⟨hsuffix, _⟩
  · exact .inl hr
  · exact .inr (tidy_of_suffix hp hsuffix)

/-- A literal is tidy if its body is. -/
theorem tidy_literal {o b : List Char} {n : Nat} (h : b.drop n = [] ∨ Tidy (b.take n)) :
    (o ++ b).drop (o.length + n) = [] ∨ Tidy ((o ++ b).take (o.length + n)) := by
  rw [List.drop_length_add_append, List.take_length_add_append]
  exact h.imp_right fun h => h.append o

/-- A placeholder name stands in quotes, in square brackets, or it is a word. -/
theorem placeholderName?_eq_some {cs name : List Char} {n : Nat}
    (h : placeholderName? cs = some (n, name)) : ∃ c rest, cs = c :: rest ∧
      (c ∈ ['\x22', '\x60', '\x27'] ∧ n = Scan.string (.quoted c) cs ∨
        c = '[' ∧ n = Scan.through [']'] cs ∨ n = Scan.word cs ∧ 0 < n) := by
  unfold placeholderName? at h
  split at h
  · cases h
  · next c rest =>
    refine ⟨c, rest, rfl, ?_⟩
    simp only at h
    split at h
    · next hq =>
      cases h
      simp only [Bool.or_eq_true, beq_iff_eq] at hq
      exact .inl ⟨by simpa [or_assoc] using hq, rfl⟩
    · split at h
      · next hq =>
        cases h
        exact .inr (.inl ⟨beq_iff_eq.mp hq, rfl⟩)
      · split at h
        · next hw =>
          cases h
          refine .inr (.inr ⟨rfl, Scan.word_pos ?_⟩)
          rcases Bool.or_eq_true_iff.mp hw with hw | hw
          · exact Scan.isWordChar_of_isWordStart hw
          · exact Scan.isWordChar_of_isDigit hw
        · cases h

theorem placeholderName?_tidy {cs name : List Char} {n : Nat}
    (h : placeholderName? cs = some (n, name)) : cs.drop n = [] ∨ Tidy (cs.take n) := by
  obtain ⟨c, rest, rfl, ⟨hq, rfl⟩ | ⟨rfl, rfl⟩ | ⟨rfl, hpos⟩⟩ := placeholderName?_eq_some h
  · have hwhite : isWhite (StringStyle.quoted c).closing = false := by
      simp only [List.mem_cons, List.not_mem_nil, or_false] at hq
      rcases hq with rfl | rfl | rfl <;> rfl
    exact tidy_literal (o := [c]) (stringBody_tidy _ hwhite rest)
  · exact through_tidy (tidy_singleton (by decide)) _
  · exact .inr (tidy_of_word hpos)

theorem inNumber_not_white {c : Char} (h : Scan.inNumber c = true) : isWhite c = false := by
  rw [Bool.eq_false_iff]
  intro hw
  revert h
  exact white_induction (p := fun c => Scan.inNumber c = true → False) (by decide) hw

theorem Phrased.tidy {t : List Char} {ws : List (List Char)} (h : Phrased t ws) : Tidy t := by
  induction h with
  | word hw => exact tidy_of_forall hw.ne_nil fun c hc => not_isBlank_of_isKeywordChar (hw.chars c hc)
  | more _ _ _ ih => exact (ih.append _).append _

theorem operator_not_blank (hne : text ≠ []) (hbare : Bare dialect.lexicon text) :
    ∀ c ∈ text.take (Lexer.operator text).length, isBlank c = false := by
  have hpos : 1 ≤ text.length := List.length_pos_iff.mpr hne
  have hle : (Lexer.operator text).length ≤ text.length :=
    max_le hpos (Scan.compoundOperator_le text)
  set t := text.take (Lexer.operator text).length with ht
  have hlen : max 1 (Scan.compoundOperator (t ++ text.drop (Lexer.operator text).length)) =
      t.length := by
    rw [List.take_append_drop, List.length_take, min_eq_left hle]
    rfl
  rcases Scan.operator_cases hlen with ⟨a, ha⟩ | ⟨hd, -⟩ | ⟨hd, -⟩
  · obtain ⟨c, cs, rfl⟩ := List.exists_cons_of_ne_nil hne
    have hone : 1 ≤ (Lexer.operator (c :: cs)).length := le_max_left 1 _
    have hac : (c :: cs).take 1 = t.take 1 := by rw [ht, List.take_take, min_eq_left hone]
    rw [ha] at hac ⊢
    obtain rfl : c = a := by simpa using hac
    intro d hd
    rw [List.mem_singleton.mp hd]
    simpa using blanks?_eq_none.mp hbare.blanks
  · exact forall_mem_of_all (Scan.isDouble_imp
      (p := fun l => (l.all fun c => decide (isBlank c = false)) = true) (by decide) hd)
  · exact forall_mem_of_all (Scan.isTriple_imp
      (p := fun l => (l.all fun c => decide (isBlank c = false)) = true) (by decide) hd)

/-- Only a token that is left open may end with a blank, a line comment apart. -/
theorem Reads.tidy (h : Reads dialect.lexicon memory text found) (hne : text ≠ [])
    (hw : found.kind ≠ .whitespace) (hl : found.kind ≠ .lineComment) :
    (text.drop found.length = [] ∧ canBeOpen found.kind = true) ∨
      Tidy (text.take found.length) := by
  cases h with
  | blanks h => obtain ⟨_, rfl⟩ := blanks?_eq_some h; exact absurd rfl hw
  | comment _ h =>
    rcases comment?_eq_some h with ⟨_, rfl⟩ | ⟨_, hstart, rfl⟩
    · exact absurd rfl hl
    · obtain ⟨b, rfl⟩ := List.isPrefixOf_iff_prefix.mp hstart
      exact (tidy_literal (o := ['/', '*'])
        (through_tidy (p := ['*', '/']) ⟨'/', rfl, by decide⟩ b)).imp_left (⟨·, rfl⟩)
  | dollar _ _ h =>
    obtain ⟨_, n, hn, rfl⟩ := dollarString?_eq_some h
    obtain ⟨tag, htag, rfl⟩ := Option.map_eq_some_iff.mp hn
    obtain ⟨b, rfl⟩ := Scan.isPrefix_of_dollarTag? htag
    have hall := (dollarTag?_append htag []).2
    have htidy : Tidy tag := tidy_of_forall (by rintro rfl; cases hall.1) fun c hc => by
      rw [Bool.eq_false_iff]
      intro hb
      exact absurd (isBlank_imp_isWhite hb) (by simp [hall.2 c hc])
    rw [List.drop_left' rfl]
    exact (tidy_literal (through_tidy htidy b)).imp_left (⟨·, rfl⟩)
  | quoted _ _ _ h =>
    obtain ⟨c, cs, style, rfl, hs, rfl⟩ := quotedString?_eq_some h
    have hwhite := closing_not_white (stringStyle?_eq_some hs).1
    exact (tidy_literal (o := [c]) (stringBody_tidy _ hwhite cs)).imp_left (⟨·, rfl⟩)
  | prefixed _ _ _ _ h =>
    obtain ⟨letter, cs, backslash, rfl, _, rfl⟩ := prefixedString?_eq_some h
    have := tidy_literal (o := [letter, '\x27'])
      (stringBody_tidy ⟨'\x27', '\x27', backslash⟩ rfl cs)
    rw [show [letter, '\x27'].length = 1 + 1 from rfl, Nat.add_assoc] at this
    exact this.imp_left (⟨·, rfl⟩)
  | word _ h =>
    obtain ⟨hs, hr⟩ := word?_eq_some h
    right
    rcases hr with ⟨_, rfl⟩ | ⟨_, halpha, kind, key, length, hk, rfl⟩
    · obtain ⟨c, cs, rfl⟩ := List.exists_cons_of_ne_nil hne
      have hword : (c :: cs).head?.any Scan.isWordChar = true := Scan.isWordChar_of_isWordStart hs
      exact tidy_of_word (Scan.word_pos hword)
    · obtain ⟨ws, hws⟩ := phrased_of_keyword hk halpha
      exact hws.tidy
  | indexed _ _ h =>
    obtain ⟨c, cs, rfl, _, ⟨hds, rfl⟩ | ⟨_, rfl, rfl⟩⟩ := indexedPlaceholder?_eq_some h
    · right
      simp only [Nat.add_comm 1, List.take_succ_cons]
      rw [← List.prefix_iff_eq_take.mp (List.takeWhile_prefix _)]
      refine Tidy.append (o := [c]) (tidy_of_forall hds fun d hd => ?_)
      have := List.mem_takeWhile_imp hd
      exact (isWordChar_not_blank (by simp [Scan.isWordChar_of_isDigit this]))
    · exact .inr ⟨'?', rfl, by decide⟩
  | named _ _ _ h =>
    obtain ⟨c, cs, n, name, rfl, _, hn, rfl⟩ := namedPlaceholder?_eq_some h
    exact (tidy_literal (o := [c]) (placeholderName?_tidy hn)).imp_left (⟨·, rfl⟩)
  | sessionVariable _ _ _ _ h =>
    obtain ⟨c, cs, rfl, _, sigils, _, hpos, rfl⟩ := sessionVariable?_eq_some h
    right
    rw [Lexeme.plain, List.take_add]
    exact (tidy_of_word hpos).append _
  | number _ _ _ _ _ h =>
    obtain ⟨hstart, rfl⟩ := number?_eq_some h
    right
    have hpos := Scan.number_pos (hstart.imp_right startsFraction_eq_true)
    refine tidy_of_forall ?_ fun c hc =>
      not_isBlank_of_not_isWhite (inNumber_not_white (Scan.inNumber_of_mem text c hc))
    rw [Ne, List.take_eq_nil_iff]
    exact not_or.mpr ⟨hpos.ne', hne⟩
  | bracket _ _ _ _ _ _ h =>
    obtain ⟨c, cs, rfl, ⟨rfl, rfl⟩ | ⟨rfl, rfl⟩ | ⟨_, rfl, rfl⟩ | ⟨_, rfl, rfl⟩⟩ :=
      bracket?_eq_some h <;> exact .inr (tidy_singleton (by decide))
  | operator bare =>
    refine .inr (tidy_of_forall ?_ (operator_not_blank hne bare))
    have hpos : 0 < (Lexer.operator text).length := Nat.le_max_left 1 _
    rw [Ne, List.take_eq_nil_iff]
    exact not_or.mpr ⟨hpos.ne', hne⟩

/-- Numbers and indexed placeholders hold no white space of any form. -/
theorem Reads.not_white (h : Reads dialect.lexicon memory text found)
    (hk : found.kind = .indexedPlaceholder ∨ found.kind = .number) :
    ∀ c ∈ text.take found.length, isWhite c = false := by
  cases h with
  | blanks h =>
    obtain ⟨_, rfl⟩ := blanks?_eq_some h
    rcases hk with hk | hk <;> cases hk
  | comment _ h =>
    rcases comment?_eq_some h with ⟨_, rfl⟩ | ⟨_, _, rfl⟩ <;> rcases hk with hk | hk <;> cases hk
  | dollar _ _ h =>
    obtain ⟨_, _, _, rfl⟩ := dollarString?_eq_some h
    rcases hk with hk | hk <;> cases hk
  | quoted _ _ _ h =>
    obtain ⟨_, _, _, _, _, rfl⟩ := quotedString?_eq_some h
    rcases hk with hk | hk <;> cases hk
  | prefixed _ _ _ _ h =>
    obtain ⟨_, _, _, _, _, rfl⟩ := prefixedString?_eq_some h
    rcases hk with hk | hk <;> cases hk
  | word _ h =>
    rcases (word?_eq_some h).2 with ⟨_, rfl⟩ | ⟨_, _, kind, key, length, hw, rfl⟩
    · rcases hk with hk | hk <;> cases hk
    · have hkind := refine_kind memory key (text.drop length)
        (classify_kind (keyword?_eq_some hw).2)
      have hnone : ∀ kind : TokenKind, kind.isReserved = true ∨ kind = .openParen ∨
          kind = .closeParen → ¬(kind = .indexedPlaceholder ∨ kind = .number) := by
        intro kind
        cases kind <;> decide
      exact absurd hk (hnone _ hkind)
  | indexed _ _ h =>
    obtain ⟨c, cs, rfl, hmem, hfound⟩ := indexedPlaceholder?_eq_some h
    have hc : isWhite c = false := by
      have hsigil := dialect.delimits.indexed c hmem
      simp only [List.mem_cons, List.not_mem_nil, or_false] at hsigil
      rcases hsigil with rfl | rfl <;> decide
    rcases hfound with ⟨-, rfl⟩ | ⟨-, -, rfl⟩
    · rw [Nat.add_comm 1, List.take_succ_cons,
        ← List.prefix_iff_eq_take.mp (List.takeWhile_prefix _)]
      rintro d (_ | ⟨_, hd⟩)
      · exact hc
      · exact inNumber_not_white (by simp [Scan.inNumber, Char.isAlphanum, List.mem_takeWhile_imp hd])
    · simpa using hc
  | named _ _ _ h =>
    obtain ⟨_, _, _, _, _, _, _, rfl⟩ := namedPlaceholder?_eq_some h
    rcases hk with hk | hk <;> cases hk
  | sessionVariable _ _ _ _ h =>
    obtain ⟨_, _, _, _, _, _, _, rfl⟩ := sessionVariable?_eq_some h
    rcases hk with hk | hk <;> cases hk
  | number _ _ _ _ _ h =>
    obtain ⟨-, rfl⟩ := number?_eq_some h
    exact fun c hc => inNumber_not_white (Scan.inNumber_of_mem text c hc)
  | bracket _ _ _ _ _ _ h =>
    obtain ⟨_, _, _, ⟨_, rfl⟩ | ⟨_, rfl⟩ | ⟨_, _, rfl⟩ | ⟨_, _, rfl⟩⟩ := bracket?_eq_some h <;>
      rcases hk with hk | hk <;> cases hk
  | operator => rcases hk with hk | hk <;> cases hk

/-! ## Tokens that go over several lines -/

/-- A named placeholder is quoted, or it holds no blank. -/
theorem namedPlaceholder?_not_blank (h : namedPlaceholder? dialect.lexicon text = some found)
    (pos : Nat) : (found.token text pos).isQuotedName = true ∨
      ∀ c ∈ text.take found.length, isBlank c = false := by
  obtain ⟨sigil, cs, n, name, rfl, hsigil, hname, rfl⟩ := namedPlaceholder?_eq_some h
  obtain ⟨q, rest, rfl, hcases⟩ := placeholderName?_eq_some hname
  have hquoted : 0 < n → q ∈ ['\x22', '\x60', '\x27', '['] →
      (Lexeme.token ⟨.namedPlaceholder, 1 + n, some (.name (String.ofList name))⟩
        (sigil :: q :: rest) pos).isQuotedName = true := by
    intro hn hq
    obtain ⟨m, rfl⟩ := Nat.exists_eq_succ_of_ne_zero hn.ne'
    simp only [Token.isQuotedName, Lexeme.token, String.toList_ofList, Nat.add_comm 1,
      List.take_succ_cons, List.getElem?_cons_succ, List.getElem?_cons_zero]
    simpa using hq
  rcases hcases with ⟨hq, rfl⟩ | ⟨rfl, rfl⟩ | ⟨rfl, hpos⟩
  · exact .inl (hquoted (Scan.string_pos _ _) (List.mem_append_left ['['] hq))
  · refine .inl (hquoted ?_ (by simp))
    rw [Scan.through]
    split <;> simp
  · right
    rw [Nat.add_comm 1, List.take_succ_cons]
    rintro d (_ | ⟨_, hd⟩)
    · exact not_isBlank_of_not_isWhite (named_not_white hsigil)
    · exact (isWord_take hpos).not_blank d hd

theorem sessionVariable?_not_blank (h : sessionVariable? dialect.lexicon text = some found) :
    ∀ c ∈ text.take found.length, isBlank c = false := by
  obtain ⟨c, cs, rfl, hc, sigils, hsigils, hpos, rfl⟩ := sessionVariable?_eq_some h
  obtain ⟨rfl, -⟩ := dialect.delimits.sigil c hc
  rw [Lexeme.plain, List.take_add]
  intro d hd
  rcases List.mem_append.mp hd with hd | hd
  · -- the sigils are at signs
    have hat : d = '@' := by
      split at hsigils
      · next hhead =>
        obtain ⟨ds, rfl⟩ := List.head?_eq_some_iff.mp (beq_iff_eq.mp hhead)
        rw [hsigils] at hd
        simpa using hd
      · rw [hsigils] at hd
        simpa using hd
    rw [hat]
    rfl
  · exact (isWord_take hpos).not_blank d hd

/-- Only white space, block comments, literals and phrases of keywords hold line feeds. -/
theorem Reads.spansLines (h : Reads dialect.lexicon memory text found) (hne : text ≠ []) (pos : Nat)
    (hfeed : '\n' ∈ text.take found.length) : (found.token text pos).SpansLines := by
  have hblank : ¬∀ c ∈ text.take found.length, isBlank c = false :=
    fun hall => absurd (hall _ hfeed) (by decide)
  have hwhite : found.kind ≠ .indexedPlaceholder ∧ found.kind ≠ .number :=
    not_or.mp fun hk => hblank fun c hc => not_isBlank_of_not_isWhite (h.not_white hk c hc)
  cases h with
  | blanks h =>
    obtain ⟨-, rfl⟩ := blanks?_eq_some h
    exact .inl rfl
  | comment _ h =>
    rcases comment?_eq_some h with ⟨-, rfl⟩ | ⟨-, -, rfl⟩
    · exact absurd hfeed (Scan.not_mem_take_lineComment text)
    · exact .inr (.inl rfl)
  | dollar _ _ h =>
    obtain ⟨-, _, -, rfl⟩ := dollarString?_eq_some h
    exact .inr (.inr (.inl rfl))
  | quoted _ _ _ h =>
    obtain ⟨_, _, _, -, -, rfl⟩ := quotedString?_eq_some h
    exact .inr (.inr (.inl rfl))
  | prefixed _ _ _ _ h =>
    obtain ⟨_, _, _, -, -, rfl⟩ := prefixedString?_eq_some h
    exact .inr (.inr (.inl rfl))
  | word _ h =>
    obtain ⟨hstart, ⟨-, rfl⟩ | ⟨-, halpha, kind, key, length, hk, rfl⟩⟩ := word?_eq_some h
    · obtain ⟨c, cs, rfl⟩ := List.exists_cons_of_ne_nil hne
      have hword : (c :: cs).head?.any Scan.isWordChar = true := Scan.isWordChar_of_isWordStart hstart
      exact absurd (isWord_take (Scan.word_pos hword)).not_blank hblank
    · exact .inr (.inr (.inr (.inr (isKeyword_of_keyword? memory hk halpha pos))))
  | indexed _ _ h =>
    obtain ⟨_, _, -, -, ⟨-, rfl⟩ | ⟨-, -, rfl⟩⟩ := indexedPlaceholder?_eq_some h <;>
      exact absurd rfl hwhite.1
  | named _ _ _ h =>
    exact .inr (.inr (.inr (.inl ((namedPlaceholder?_not_blank h pos).resolve_right hblank))))
  | sessionVariable _ _ _ _ h => exact absurd (sessionVariable?_not_blank h) hblank
  | number _ _ _ _ _ h =>
    obtain ⟨-, rfl⟩ := number?_eq_some h
    exact absurd rfl hwhite.2
  | bracket _ _ _ _ _ _ h =>
    obtain ⟨c, cs, rfl, ⟨rfl, rfl⟩ | ⟨rfl, rfl⟩ | ⟨-, rfl, rfl⟩ | ⟨-, rfl, rfl⟩⟩ :=
      bracket?_eq_some h <;> exact absurd hfeed (by simp [Lexeme.plain])
  | operator bare => exact absurd (operator_not_blank hne bare) hblank

/-! ## All tokens of a text -/

theorem sound_of_mem (dialect : Dialect) (memory : Memory) (pos : Nat) (text : List Char) :
    ∀ t ∈ tokensFrom dialect.lexicon memory pos text, t.Sound dialect :=
  forall_mem_of_cut dialect (fun _ pos _ _ hne h => h.sound hne pos) memory pos text

/-- What holds of two tokens of a text of which the second follows the first. -/
structure Adjacent (first second : Token) : Prop where
  follows : Follows first second
  tidy : first.kind ≠ .whitespace → first.kind ≠ .lineComment → Tidy first.text.toList

theorem isChain_adjacent (dialect : Dialect) (memory : Memory) (pos : Nat) (text : List Char) :
    (tokensFrom dialect.lexicon memory pos text).IsChain Adjacent := by
  induction memory, pos, text using cut_induction dialect with
  | nil memory pos => simp [tokensFrom_nil]
  | cut memory pos text found hne h ih =>
    rw [tokensFrom_cons dialect memory pos hne h]
    cases hrest : text.drop found.length with
    | nil => simp [tokensFrom_nil]
    | cons c cs =>
      have hne' : text.drop found.length ≠ [] := by simp [hrest]
      have hnext := lexeme_reads dialect.lexicon (memory.after (found.token text pos))
        (text.drop found.length)
      rw [← hrest]
      rw [tokensFrom_cons dialect _ _ hne' hnext] at ih ⊢
      refine List.isChain_cons_cons.mpr ⟨⟨follows_cut h hne' hnext, fun hw hl => ?_⟩, ih⟩
      rw [Lexeme.token_text, String.toList_ofList]
      exact (h.tidy hne hw hl).resolve_left fun hopen => hne' hopen.1

theorem tidy_of_mem (dialect : Dialect) (memory : Memory) (pos : Nat) (text : List Char) :
    ∀ t ∈ tokensFrom dialect.lexicon memory pos text, t.kind ≠ .whitespace →
      t.kind ≠ .lineComment → canBeOpen t.kind = false → Tidy t.text.toList := by
  refine forall_mem_of_cut dialect (fun memory pos text found hne h hw hl ho => ?_) memory pos text
  rw [Lexeme.token_text, String.toList_ofList]
  refine (h.tidy hne hw hl).resolve_left fun hopen => ?_
  rw [Lexeme.token_kind, hopen.2] at ho
  cases ho

theorem not_white_of_mem (dialect : Dialect) (memory : Memory) (pos : Nat) (text : List Char) :
    ∀ t ∈ tokensFrom dialect.lexicon memory pos text,
      t.kind = .indexedPlaceholder ∨ t.kind = .number → ∀ c ∈ t.text.toList, isWhite c = false := by
  refine forall_mem_of_cut dialect (fun memory pos text found _ h hk => ?_) memory pos text
  rw [Lexeme.token_text, String.toList_ofList]
  exact h.not_white hk

theorem spansLines_of_mem (dialect : Dialect) (memory : Memory) (pos : Nat) (text : List Char) :
    ∀ t ∈ tokensFrom dialect.lexicon memory pos text, '\n' ∈ t.text.toList → t.SpansLines := by
  refine forall_mem_of_cut dialect (fun memory pos text found hne h hfeed => ?_) memory pos text
  rw [Lexeme.token_text, String.toList_ofList] at hfeed
  exact h.spansLines hne pos hfeed

end Lexer

end SqlFormat

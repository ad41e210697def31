import Mathlib
import SqlFormat.Proofs.Token.Sound
import SqlFormat.Token.Merge

/-!
# Tokens written out

Formatted text is the tokens of its source, each with blanks before it and some of them respelt. A
token stands directly after another only where the two may touch. `Spelt` says that a text is
written so, whatever decides where the blanks go.

Results: `Spelt.atEdge`, `Spelt.closedEdge` (what a token can stand directly before),
`Spelt.facing` (a word has the same words ahead of it as in the source).
-/

namespace SqlFormat

open Text Lexer

/-- A token that ends with no white space but blanks, so that trimming takes blanks only. -/
structure Token.Regular (dialect : Dialect) (token : Token) : Prop extends token.Sound dialect where
  white : ∀ c ∈ token.text.toList.getLast?, isWhite c = true → isBlank c = true

/-- The second token may stand directly after the first, as far as spacing goes. -/
inductive Tight (dialect : Dialect) (first second : Token) : Prop
  | opening (h : first.isBracket = true) (ht : first.text = "(" ∨ first.text = "[")
  | sign (h : first.isOperator "+" = true ∨ first.isOperator "-" = true)
  | after (h : first.kind = .operator) (hs : (dialect.spacing first.text).after = false)
  | closing (h : second.isBracket = true) (ht : second.text = ")" ∨ second.text = "]")
  | before (h : second.kind = .operator) (hs : (dialect.spacing second.text).before = false)
  | group (h : first.kind ≠ .operator) (hs : Layout.isOpeningBracket second = true)

/-- These blanks may stand between two tokens: something follows a line comment only on the next
line, and tokens touch only where they may. -/
structure Joins (dialect : Dialect) (before : Option Token) (gap : List Char) (token : Token) :
    Prop where
  blank : ∀ c ∈ gap, isBlank c = true
  lineEnd : ∀ a ∈ before, a.kind = .lineComment → gap.head? = some '\n'
  touch : gap = [] → ∀ a ∈ before, a.kind = .blockComment ∨
    (a.kind.isComment = false ∧ token.kind.isComment = false ∧ Tight dialect a token ∧
      wouldMerge dialect.lexicon a token = false)

/-- How a token may be written. Only the last token of a text may lose white space. -/
inductive Written (case : KeywordCase) (last : Bool) (token : Token) : List Char → Prop
  | lineComment (h : token.kind = .lineComment) :
      Written case last token (dropWhileEnd isWhite token.text.toList)
  | blockComment {x : List Char} (h : token.kind = .blockComment)
      (hx : Reflow token.text.toList x) : Written case last token x
  | keyword (h : token.isKeyword = true) :
      Written case last token (case.apply (normalizePhrase token.text)).toList
  | same (hc : token.kind.isComment = false) (h : token.isKeyword = false) :
      Written case last token token.text.toList
  | trimmed (h : last = true) (hk : token.kind = .string ∨ token.kind = .namedPlaceholder) :
      Written case last token (dropWhileEnd isWhite token.text.toList)

/-- A token as it is written, with the blanks before it. -/
structure Piece where
  gap : List Char
  token : Token
  text : List Char

/-- The text of pieces, and what comes after them. -/
def spell : List Piece → List Char → List Char
  | [], tail => tail
  | p :: ps, tail => p.gap ++ (p.text ++ spell ps tail)

/-- The pieces follow the rules, after a token if there is one. Blanks may come last. -/
inductive Spelt (dialect : Dialect) (case : KeywordCase) :
    Option Token → List Piece → List Char → Prop
  | nil {before : Option Token} {tail : List Char} (blank : ∀ c ∈ tail, isBlank c = true)
      (lineEnd : ∀ a ∈ before, a.kind = .lineComment → tail.head?.all (· == '\n') = true) :
      Spelt dialect case before [] tail
  | cons {before : Option Token} {p : Piece} {ps : List Piece} {tail : List Char}
      (regular : p.token.Regular dialect) (kind : p.token.kind ≠ .whitespace)
      (joins : Joins dialect before p.gap p.token)
      (written : Written case ps.isEmpty p.token p.text)
      (rest : Spelt dialect case (some p.token) ps tail) : Spelt dialect case before (p :: ps) tail

variable {dialect : Dialect} {case : KeywordCase} {before : Option Token} {ps : List Piece}
  {tail : List Char}

theorem Spelt.allWhite_tail (h : Spelt dialect case before [] tail) :
    AllWhite tail := by
  cases h with
  | nil blank => exact fun c hc => isBlank_imp_isWhite (blank c hc)

/-! ## The first character of a token -/

/-- A keyword is written with one space between its words. -/
theorem exists_keywordText {token : Token} (hs : token.Sound dialect) (hk : token.isKeyword = true)
    (case : KeywordCase) : ∃ ws, Phrased token.text.toList ws ∧
      (case.apply (normalizePhrase token.text)).toList = ([' '].intercalate ws).map case.letter := by
  obtain ⟨ws, hws⟩ := hs.keyword hk
  have hphrase := toList_normalizePhrase hws
  rw [String.ofList_toList] at hphrase
  refine ⟨ws, hws, ?_⟩
  rw [case.toList_apply (hphrase ▸ hws.ascii_intercalate), hphrase]

/-- What is written for a keyword is a keyword that the same is written for. -/
theorem apply_keyword {token : Token} (hs : token.Sound dialect) (hk : token.isKeyword = true)
    (case : KeywordCase) : case.apply (normalizePhrase (case.apply (normalizePhrase token.text))) =
      case.apply (normalizePhrase token.text) := by
  obtain ⟨ws, hws, htext⟩ := exists_keywordText hs hk case
  have hagain := hws.apply_recased case
  rw [← htext, String.ofList_toList] at hagain
  exact String.toList_inj.mp hagain

/-- A keyword is written as the same phrase. -/
theorem respaced_keyword {token : Token} (hs : token.Sound dialect) (hk : token.isKeyword = true)
    (case : KeywordCase) :
    Respaced token.text.toList (case.apply (normalizePhrase token.text)).toList := by
  obtain ⟨ws, hws, htext⟩ := exists_keywordText hs hk case
  rw [htext]
  exact hws.respaced case

/-- What is written starts with the same character as the token, or both start with letters. -/
theorem Written.head {last : Bool} {token : Token} {x : List Char}
    (h : Written case last token x) (hr : token.Regular dialect) (hk : token.kind ≠ .whitespace) :
    ∃ c cs d ds, token.text.toList = c :: cs ∧ isBlank c = false ∧ x = d :: ds ∧
      (c = d ∨ (token.isKeyword = true ∧ c.isAlpha = true ∧ d.isAlpha = true)) := by
  obtain ⟨c, cs, htext, hb⟩ := hr.head hk
  have hw : token.kind = .lineComment ∨ canBeOpen token.kind = true → isWhite c = false := by
    intro hopen
    obtain ⟨d, hd, hw⟩ := hr.opening hopen
    rw [htext] at hd
    exact Option.some.inj hd ▸ hw
  refine ⟨c, cs, ?_⟩
  cases h with
  | lineComment hline =>
    rw [htext, dropWhileEnd_cons (hw (.inl hline))]
    exact ⟨_, _, rfl, hb, rfl, .inl rfl⟩
  | blockComment hblock hx =>
    rw [htext] at hx
    obtain ⟨x', rfl, _⟩ := Reflow.cons_inv (hw (.inr (by rw [hblock]; rfl))) hx
    exact ⟨_, _, htext, hb, rfl, .inl rfl⟩
  | keyword hkey =>
    obtain ⟨hhead, hhead'⟩ := (respaced_keyword hr.toSound hkey case).head
    rw [htext] at hhead
    obtain ⟨d, ds, hx⟩ := List.exists_cons_of_ne_nil
      (l := (case.apply (normalizePhrase token.text)).toList) (by intro h; rw [h] at hhead'; cases hhead')
    rw [hx] at hhead' ⊢
    exact ⟨d, ds, htext, hb, rfl, .inr ⟨hkey, hhead, hhead'⟩⟩
  | same => exact ⟨_, _, htext, hb, htext, .inl rfl⟩
  | trimmed _ hlit =>
    rw [htext, dropWhileEnd_cons (hw (.inr (by rcases hlit with h | h <;> rw [h] <;> rfl)))]
    exact ⟨_, _, rfl, hb, rfl, .inl rfl⟩

theorem Written.ne_nil {last : Bool} {token : Token}
    {x : List Char} (h : Written case last token x) (hr : token.Regular dialect)
    (hk : token.kind ≠ .whitespace) : x ≠ [] := by
  obtain ⟨_, _, d, ds, _, _, hx, _⟩ := h.head hr hk
  rw [hx]
  simp

/-! ## What stands directly after a token -/

theorem spacing_before {op : String} (h : (dialect.spacing op).before = false) :
    op ∈ [".", "::", ",", ";", ":", "%", ".."] := by
  unfold Dialect.spacing at h
  split_ifs at h with h₁ h₂ h₃
  · simp only [Bool.or_eq_true, beq_iff_eq] at h₁
    rcases h₁ with rfl | rfl <;> simp
  · simp only [Bool.or_eq_true, beq_iff_eq] at h₂
    rcases h₂ with (rfl | rfl) | rfl <;> simp
  · simp only [Bool.and_eq_true, Bool.or_eq_true, beq_iff_eq] at h₃
    rcases h₃.2 with rfl | rfl <;> simp
  · cases h

theorem spacing_after {op : String} (h : (dialect.spacing op).after = false) :
    op ∈ [".", "::", "%", ".."] := by
  unfold Dialect.spacing at h
  split_ifs at h with h₁ h₂ h₃
  · simp only [Bool.or_eq_true, beq_iff_eq] at h₁
    rcases h₁ with rfl | rfl <;> simp
  · cases h
  · simp only [Bool.and_eq_true, Bool.or_eq_true, beq_iff_eq] at h₃
    rcases h₃.2 with rfl | rfl <;> simp
  · cases h

theorem isKeyword_of_isBracket {token : Token} (h : token.isBracket = true) :
    token.isKeyword = false ∧ token.kind.isComment = false := by
  have hk := h
  simp only [Token.isBracket, Bool.and_eq_true, Bool.or_eq_true, beq_iff_eq] at hk
  rcases hk.1 with hk | hk <;>
    simp [Token.isKeyword, h, hk, TokenKind.isReserved, TokenKind.isComment]

theorem isKeyword_of_operator {token : Token} (h : token.kind = .operator) :
    token.isKeyword = false ∧ token.kind.isComment = false := by
  simp [Token.isKeyword, h, TokenKind.isReserved, TokenKind.isComment]

/-- A bracket or an operator is written as it is. -/
theorem Written.eq_text {last : Bool} {token : Token} {x : List Char}
    (h : Written case last token x) (hk : token.isBracket = true ∨ token.kind = .operator) :
    x = token.text.toList := by
  obtain ⟨hkey, hcom⟩ : token.isKeyword = false ∧ token.kind.isComment = false :=
    hk.elim isKeyword_of_isBracket isKeyword_of_operator
  cases h with
  | lineComment h => rw [h] at hcom; cases hcom
  | blockComment h => rw [h] at hcom; cases hcom
  | keyword h => rw [h] at hkey; cases hkey
  | same => rfl
  | trimmed _ hlit =>
    rcases hk with hk | hk
    · rcases hlit with h | h <;> simp [Token.isBracket, h] at hk
    · rcases hlit with h | h <;> rw [h] at hk <;> cases hk

/-- The text is empty, starts with a blank, or starts with a token that touches what is before it. -/
theorem Spelt.start_cases {a : Token} (h : Spelt dialect case (some a) ps tail) :
    (∀ c ∈ (spell ps tail).head?, isBlank c = true) ∨
      ∃ p qs, ps = p :: qs ∧ p.gap = [] ∧ p.token.Regular dialect ∧ p.token.kind ≠ .whitespace ∧
        Joins dialect (some a) [] p.token ∧ Written case qs.isEmpty p.token p.text ∧
        Spelt dialect case (some p.token) qs tail := by
  cases h with
  | nil blank => exact .inl fun c hc => blank c (List.mem_of_mem_head? hc)
  | @cons _ p qs _ regular kind joins written rest =>
    cases hgap : p.gap with
    | nil => exact .inr ⟨p, qs, rfl, hgap, regular, kind, hgap ▸ joins, written, rest⟩
    | cons g gap =>
      refine .inl fun c hc => ?_
      rw [spell, hgap, List.cons_append, List.head?_cons, Option.mem_some_iff] at hc
      exact hc ▸ joins.blank g (by rw [hgap]; simp)

/-- The head of what follows a token that touches the next one. -/
theorem Spelt.head_touching {p : Piece} {qs : List Piece} (hgap : p.gap = []) {cs : List Char}
    {c : Char} (hx : p.text = c :: cs) : (spell (p :: qs) tail).head? = some c := by
  rw [spell, hgap, hx]
  rfl

/-- A closing bracket, or an operator that no space belongs before, starts with a closed edge. -/
theorem closedEdge_of_tight (dialect : Dialect) {token : Token}
    (h : (token.isBracket = true ∧ (token.text = ")" ∨ token.text = "]")) ∨
      (token.kind = .operator ∧ (dialect.spacing token.text).before = false)) :
    ∃ c cs, token.text.toList = c :: cs ∧ c ∈ closedEdges ∧ (c = ']' → token.text = "]") := by
  rcases h with ⟨_, h | h⟩ | ⟨_, h⟩
  · exact ⟨')', [], by rw [h]; rfl, by decide, fun h => absurd h (by decide)⟩
  · exact ⟨']', [], by rw [h]; rfl, by decide, fun _ => h⟩
  · have hops := spacing_before h
    simp only [List.mem_cons, List.not_mem_nil, or_false] at hops
    rcases hops with h | h | h | h | h | h | h <;> rw [h] <;>
      exact ⟨_, _, rfl, by decide, fun h => absurd h (by decide)⟩

/-- What may stand directly after a token other than an operator or an opening bracket. -/
theorem Spelt.atEdge {a : Token} (h : Spelt dialect case (some a) ps tail)
    (hc : a.kind.isComment = false) (ho : a.kind ≠ .operator)
    (hb : a.isBracket = true → a.text ≠ "(" ∧ a.text ≠ "[") :
    AtEdge (spell ps tail) ∧
      (dialect.lexicon.bracketParens = false → (spell ps tail).head? ≠ some ']') := by
  rcases h.start_cases with hblank | ⟨p, qs, rfl, hgap, regular, kind, joins, written, _⟩
  · have hedge := atClosedEdge_blank hblank
    refine ⟨hedge.atEdge, fun _ heq => ?_⟩
    exact absurd (hblank _ heq) (by decide)
  · obtain ⟨_, _, htight, _⟩ : a.kind.isComment = false ∧ p.token.kind.isComment = false ∧
        Tight dialect a p.token ∧ wouldMerge dialect.lexicon a p.token = false := by
      rcases joins.touch rfl a rfl with h | h
      · rw [h] at hc
        cases hc
      · exact h
    have hclosed : ∀ c cs, p.token.text.toList = c :: cs → c ∈ edges →
        (c = ']' → p.token.text = "]" ∧ p.token.isBracket = true) →
        p.token.isBracket = true ∨ p.token.kind = .operator →
        AtEdge (spell (p :: qs) tail) ∧
          (dialect.lexicon.bracketParens = false → (spell (p :: qs) tail).head? ≠ some ']') := by
      intro c cs htext hedge hsquare hkind
      have hhead : (spell (p :: qs) tail).head? = some c :=
        Spelt.head_touching hgap ((written.eq_text hkind).trans htext)
      constructor
      · intro d hd
        rw [hhead] at hd
        exact Option.some.inj hd ▸ hedge
      · rintro hparens heq
        rw [hhead, Option.some.injEq] at heq
        obtain ⟨htext, hbracket⟩ := hsquare heq
        rw [regular.square hbracket (.inr htext)] at hparens
        cases hparens
    have hsub : ∀ c ∈ closedEdges, c ∈ edges := forall_mem_of_all (by decide)
    cases htight with
    | opening h ht => exact (ht.elim (hb h).1 (hb h).2).elim
    | sign h =>
      simp only [Token.isOperator, Bool.and_eq_true, beq_iff_eq] at h
      exact absurd (h.elim (·.1) (·.1)) ho
    | after h => exact absurd h ho
    | closing h ht =>
      obtain ⟨c, cs, htext, hedge, hsq⟩ := closedEdge_of_tight dialect (.inl ⟨h, ht⟩)
      exact hclosed c cs htext (hsub c hedge) (fun heq => ⟨hsq heq, h⟩) (.inl h)
    | before h hs =>
      obtain ⟨c, cs, htext, hedge, hsq⟩ := closedEdge_of_tight dialect (.inr ⟨h, hs⟩)
      refine hclosed c cs htext (hsub c hedge) (fun heq => ?_) (.inr h)
      have := hsq heq
      rw [this] at hs
      exact absurd (spacing_before hs) (by decide)
    | group _ hs =>
      have hbracket := (Bool.and_eq_true_iff.mp hs).2
      have htext := hbracket
      simp only [Token.isBracket, Bool.and_eq_true, Bool.or_eq_true, beq_iff_eq] at htext
      rcases htext.2 with ((h | h) | h) | h <;>
        exact hclosed _ [] (by rw [h]; rfl) (by decide) (fun heq => by
          first | exact absurd heq (by decide) | exact ⟨h, hbracket⟩) (.inl hbracket)

/-! ## Numbers -/

/-- Of what may touch a token other than an operator or an opening bracket, only the operators of
dots start with a dot. -/
theorem dots_of_tight {a b : Token} {last : Bool} {x : List Char} (h : Tight dialect a b)
    (ho : a.kind ≠ .operator) (hb : a.isBracket = false) (hw : Written case last b x)
    (hx : x.head? = some '.') : x = b.text.toList ∧ (b.text = "." ∨ b.text = "..") := by
  have hbracket : b.isBracket = true → x.head? = some '.' → False := by
    intro h hx
    rw [hw.eq_text (.inl h)] at hx
    simp only [Token.isBracket, Bool.and_eq_true, Bool.or_eq_true, beq_iff_eq] at h
    rcases h.2 with ((h | h) | h) | h <;> rw [h] at hx <;> exact absurd hx (by decide)
  cases h with
  | opening h => rw [h] at hb; cases hb
  | sign h =>
    simp only [Token.isOperator, Bool.and_eq_true, beq_iff_eq] at h
    exact absurd (h.elim (·.1) (·.1)) ho
  | after h => exact absurd h ho
  | closing h => exact (hbracket h hx).elim
  | before h hs =>
    have heq := hw.eq_text (.inr h)
    refine ⟨heq, ?_⟩
    have hops := spacing_before hs
    simp only [List.mem_cons, List.not_mem_nil, or_false] at hops
    rw [heq] at hx
    rcases hops with h | h | h | h | h | h | h
    · exact .inl h
    · rw [h] at hx; exact absurd hx (by decide)
    · rw [h] at hx; exact absurd hx (by decide)
    · rw [h] at hx; exact absurd hx (by decide)
    · rw [h] at hx; exact absurd hx (by decide)
    · rw [h] at hx; exact absurd hx (by decide)
    · exact .inr h
  | group _ hs => exact (hbracket (Bool.and_eq_true_iff.mp hs).2 hx).elim

/-- A number is read again as it is written. -/
theorem Spelt.numberStops {a : Token} (h : Spelt dialect case (some a) ps tail)
    (ha : a.kind = .number) (hlen : Scan.number a.text.toList = a.text.toList.length) :
    Scan.number (a.text.toList ++ spell ps tail) = a.text.toList.length := by
  have hcom : a.kind.isComment = false := by rw [ha]; rfl
  have hbracket : a.isBracket = false := by simp [Token.isBracket, ha]
  have hedge := (h.atEdge hcom (by rw [ha]; decide) (by simp [hbracket])).1
  rcases h.start_cases with hblank | ⟨p, qs, rfl, hgap, regular, kind, joins, written, _⟩
  · cases hs : spell ps tail with
    | nil => rwa [List.append_nil]
    | cons c r =>
      have hc := hblank c (by rw [hs]; rfl)
      refine Scan.number_stop ?_ (by rintro rfl; exact absurd hc (by decide)) hlen
      simp only [isBlank, Bool.or_eq_true, beq_iff_eq] at hc
      rcases hc with (((rfl | rfl) | rfl) | rfl) | rfl <;> decide
  obtain ⟨_, _, htight, hmerge⟩ := (joins.touch rfl a rfl).resolve_left (by rw [ha]; decide)
  obtain ⟨c, cs, d, ds, htext, _, hx, hcd⟩ := written.head regular kind
  have hspell : spell (p :: qs) tail = d :: (ds ++ spell qs tail) := by
    rw [spell, hgap, hx]
    rfl
  have hd := hedge d (by rw [hspell]; rfl)
  rw [hspell]
  by_cases hdot : d = '.'
  · subst hdot
    have hjoin : Scan.number (a.text.toList ++ p.token.text.toList) = a.text.toList.length := by
      rw [String.length_toList]
      simpa [wouldMerge, ha] using hmerge
    obtain ⟨heq, hdots⟩ :=
      dots_of_tight htight (by rw [ha]; decide) hbracket written (by rw [hx]; rfl)
    rw [hx] at heq
    rcases hdots with h | h
    · rw [h] at hjoin heq
      obtain rfl := (List.cons.inj heq).2
      exact (Scan.number_dot hjoin.le).trans hjoin
    · rw [h] at hjoin heq
      obtain rfl := (List.cons.inj heq).2
      exact Scan.number_dots.trans hjoin
  · have hstop : ∀ c ∈ edges, c ≠ '.' → Scan.stopsNumber c = true :=
      forall_mem_of_all (by decide)
    exact Scan.number_stop (hstop d hd hdot) hdot hlen

/-! ## Operators -/

/-- What it means for an operator not to run together with the next token. -/
theorem wouldMerge_operator {a b : Token} (ha : a.kind = .operator)
    (h : wouldMerge dialect.lexicon a b = false) :
    dialect.lexicon.startsLineComment (a.text.toList ++ b.text.toList) = false ∧
      Scan.startsBlockComment (a.text.toList ++ b.text.toList) = false ∧
      (Scan.compoundOperator (a.text.toList ++ b.text.toList) = 0 ∨
        Scan.compoundOperator (a.text.toList ++ b.text.toList) = a.text.toList.length) ∧
      (a.text = "." → b.text.toList.head?.any Char.isDigit = false) := by
  simp only [wouldMerge, ha, Bool.or_eq_false_iff, Bool.and_eq_false_iff, bne_eq_false_iff_eq,
    beq_eq_false_iff_ne] at h
  obtain ⟨⟨⟨hl, hb⟩, hcomp⟩, hdot⟩ := h
  refine ⟨hl, hb, by rwa [String.length_toList], fun heq => ?_⟩
  rcases hdot with hdot | hdot
  · exact absurd heq hdot
  · exact hdot

/-- No line comment starts with a letter or white space, nor does one hold any in its marker. -/
theorem lineComments_signs (dialect : Dialect) :
    (dialect.lexicon.lineComments.all fun m => m.toList.all (!Scan.stopsSign ·)) = true := by
  cases dialect <;> decide

theorem isDigit_of_stopsSign {c : Char} (h : Scan.stopsSign c = true) : c.isDigit = false := by
  rw [Bool.eq_false_iff]
  intro hdigit
  have hkey : isKeywordChar c = true := by simp [isKeywordChar, Char.isAlphanum, hdigit]
  rw [Scan.stopsSign, not_isWhite_of_isKeywordChar hkey, Bool.or_false] at h
  exact Bool.false_ne_true ((isDigit_of_isAlpha h).symm.trans hdigit)

/-- Whether an operator runs together with a text is seen before the first letter or white space in it. -/
theorem wouldMerge_stop (dialect : Dialect) {a b u : Token} (ha : a.kind = .operator) {c : Char}
    (hc : Scan.stopsSign c = true) {r : List Char} (hb : b.text.toList = u.text.toList ++ c :: r) :
    wouldMerge dialect.lexicon a b = wouldMerge dialect.lexicon a u := by
  have hdigit : b.text.toList.head?.any Char.isDigit = u.text.toList.head?.any Char.isDigit := by
    rw [hb]
    cases u.text.toList with
    | nil => exact isDigit_of_stopsSign hc
    | cons d ds => rfl
  have hline : dialect.lexicon.startsLineComment (a.text.toList ++ b.text.toList) =
      dialect.lexicon.startsLineComment (a.text.toList ++ u.text.toList) := by
    rw [hb, ← List.append_assoc]
    exact Scan.any_isPrefixOf_stop hc (lineComments_signs dialect) _ _
  have hblock : Scan.startsBlockComment (a.text.toList ++ b.text.toList) =
      Scan.startsBlockComment (a.text.toList ++ u.text.toList) := by
    rw [hb, ← List.append_assoc, Scan.startsBlockComment_stop hc]
  have hcompound : Scan.compoundOperator (a.text.toList ++ b.text.toList) =
      Scan.compoundOperator (a.text.toList ++ u.text.toList) := by
    rw [hb, ← List.append_assoc, Scan.compoundOperator_stop hc]
  simp only [wouldMerge, ha, hline, hblock, hcompound, hdigit]

/-- To an operator all words are the same. -/
theorem wouldMerge_alpha (dialect : Dialect) {a b u : Token} (ha : a.kind = .operator)
    (hb : b.text.toList.head?.any Char.isAlpha = true)
    (hu : u.text.toList.head?.any Char.isAlpha = true) :
    wouldMerge dialect.lexicon a b = wouldMerge dialect.lexicon a u := by
  have hempty : ∀ v : Token, v.text.toList.head?.any Char.isAlpha = true →
      wouldMerge dialect.lexicon a v = wouldMerge dialect.lexicon a (.plain .word "" 0) := by
    intro v hv
    obtain ⟨c, hc, halpha⟩ : ∃ c, v.text.toList.head? = some c ∧ c.isAlpha = true := by
      simpa [Option.any_eq_true] using hv
    obtain ⟨r, hr⟩ := List.head?_eq_some_iff.mp hc
    exact wouldMerge_stop dialect ha (by simp [Scan.stopsSign, halpha]) hr
  rw [hempty b hb, hempty u hu]

/-- Only a closing bracket or an operator that no space belongs before may stand directly after an
operator that is no sign and that a space belongs after. -/
theorem Tight.closed {a b : Token} (h : Tight dialect a b) (ha : a.kind = .operator)
    (hsign : a.text ≠ "+" ∧ a.text ≠ "-") (hafter : (dialect.spacing a.text).after = true) :
    (b.isBracket = true ∧ (b.text = ")" ∨ b.text = "]")) ∨
      (b.kind = .operator ∧ (dialect.spacing b.text).before = false) := by
  cases h with
  | opening h => rw [Token.isBracket, ha] at h; cases h
  | sign h =>
    simp only [Token.isOperator, Bool.and_eq_true, beq_iff_eq] at h
    exact (h.elim (fun h => hsign.1 h.2) fun h => hsign.2 h.2).elim
  | after _ hs => rw [hafter] at hs; cases hs
  | closing h ht => exact .inl ⟨h, ht⟩
  | before h hs => exact .inr ⟨h, hs⟩
  | group h => exact absurd ha h

/-- What may stand directly after an operator that is no sign and that a space belongs after. -/
theorem Spelt.closedEdge {a : Token} (h : Spelt dialect case (some a) ps tail)
    (ha : a.kind = .operator) (hsign : a.text ≠ "+" ∧ a.text ≠ "-")
    (hafter : (dialect.spacing a.text).after = true) :
    AtClosedEdge (spell ps tail) := by
  rcases h.start_cases with hblank | ⟨p, qs, rfl, hgap, regular, kind, joins, written, _⟩
  · exact atClosedEdge_blank hblank
  · obtain ⟨_, _, htight, _⟩ := (joins.touch rfl a rfl).resolve_left (by rw [ha]; decide)
    have hclosed := htight.closed ha hsign hafter
    obtain ⟨c, cs, htext, hedge, _⟩ := closedEdge_of_tight dialect hclosed
    have hx := (written.eq_text (hclosed.imp And.left And.left)).trans htext
    intro d hd
    rw [Spelt.head_touching hgap hx] at hd
    exact Option.some.inj hd ▸ hedge

/-- How an operator and what is written after it are read. -/
structure OperatorStops (dialect : Dialect) (t r : List Char) : Prop where
  comment : comment? dialect.lexicon (t ++ r) = none
  length : max 1 (Scan.compoundOperator (t ++ r)) = t.length
  sigil : (∀ c ∈ t.head?, c ∉ ['?', '$', ':', '@']) ∨ t = [':', ':'] ∨ AtClosedEdge r
  dot : t = ['.'] → r.head?.any Char.isDigit = false

/-- An operator stops before a closed edge that makes no operator of two characters with it. -/
theorem operatorStops_closedEdge {t r r' : List Char} (hne : t ≠ [])
    (hcom : comment? dialect.lexicon (t ++ r) = none)
    (hlen : max 1 (Scan.compoundOperator (t ++ r)) = t.length) (hedge : AtClosedEdge r')
    (hdouble : ∀ a c, t = [a] → r'.head? = some c → Scan.isDouble [a, c] = false) :
    OperatorStops dialect t r' where
  comment := comment?_transfer hne hcom (fun _ => hedge.atEdge.ne (by decide))
    fun _ => hedge.atEdge.ne (by decide)
  length := Scan.operator_closedEdge hlen hedge hdouble
  sigil := .inr (.inr hedge)
  dot _ := hedge.any (by decide)

/-- No operator of two characters starts with an operator and the token that touches it. -/
theorem isDouble_touching {a b : Token} (ha : a.kind = .operator)
    (hmerge : wouldMerge dialect.lexicon a b = false) {c d e : Char} {cs : List Char}
    (hta : a.text.toList = [e]) (htb : b.text.toList = c :: cs)
    (hcd : c = d ∨ (b.isKeyword = true ∧ c.isAlpha = true ∧ d.isAlpha = true)) :
    Scan.isDouble [e, d] = false := by
  rcases hcd with rfl | ⟨_, _, hd⟩
  · obtain ⟨_, _, hcomp, _⟩ := wouldMerge_operator ha hmerge
    rw [Bool.eq_false_iff]
    intro hdouble
    rw [hta, htb, List.singleton_append, Scan.compoundOperator_eq] at hcomp
    simp only [List.take_succ_cons, List.take_zero, hdouble, if_true, List.length_singleton] at hcomp
    split_ifs at hcomp <;> simp at hcomp
  · exact Scan.isDouble_alpha hd

/-- A minus sign that touches the next token makes no operator of three characters with it. Only a
vertical bar could, with a minus sign after it; but a space belongs after a bar. -/
theorem isTriple_minus {a : Token} {p : Piece} {qs : List Piece} (ha : a.kind = .operator)
    (hta : a.text.toList = ['-']) (hmerge : wouldMerge dialect.lexicon a p.token = false)
    (regular : p.token.Regular dialect) (kind : p.token.kind ≠ .whitespace)
    (written : Written case qs.isEmpty p.token p.text)
    (rest : Spelt dialect case (some p.token) qs tail) :
    Scan.isTriple (('-' :: (p.text ++ spell qs tail)).take 3) = false := by
  obtain ⟨c, cs, d, ds, htext, _, hx, hcd⟩ := written.head regular kind
  rw [Bool.eq_false_iff]
  intro htriple
  rw [hx] at htriple
  have hcases := Scan.isTriple_imp (p := fun l => l.head? = some '-' →
    l = ['-', '>', '>'] ∨ l = ['-', '|', '-']) (by decide) htriple rfl
  simp only [List.cons_append, List.take_succ_cons, List.cons.injEq, true_and] at hcases
  rcases hcases with ⟨rfl, _⟩ | ⟨rfl, hthird⟩
  · have := isDouble_touching ha hmerge hta htext hcd
    exact absurd this (by decide)
  · obtain rfl : c = '|' := hcd.resolve_right fun h => absurd h.2.2 (by decide)
    have hop := regular.bar (by rw [htext]; rfl)
    have heq := written.eq_text (.inr hop)
    rw [hx, htext, List.cons.injEq] at heq
    obtain rfl := heq.2
    cases ds with
    | nil =>
      have hbar : p.token.text = "|" := String.toList_inj.mp htext
      have hedge := rest.closedEdge hop (by rw [hbar]; decide) (by rw [hbar]; cases dialect <;> decide)
      refine hedge.atEdge.ne (c := '-') (by decide) ?_
      cases hs : spell qs tail with
      | nil => rw [hs] at hthird; cases hthird
      | cons z zs =>
        rw [hs] at hthird
        exact congrArg List.head? hthird
    | cons e ds =>
      obtain ⟨_, _, hcomp, _⟩ := wouldMerge_operator ha hmerge
      have htake : (a.text.toList ++ p.token.text.toList).take 3 = ['-', '|', '-'] := by
        rw [hta, htext]
        simpa using hthird
      rw [Scan.compoundOperator_eq, htake, if_pos (by decide), hta] at hcomp
      simp at hcomp

/-- The operators that anything may touch: signs, and those that no space belongs after. -/
def tightOperators : List String := ["+", "-", ".", "::", "%", ".."]

theorem mem_tightOperators {op : String}
    (h : ¬((op ≠ "+" ∧ op ≠ "-") ∧ (dialect.spacing op).after = true)) : op ∈ tightOperators := by
  by_cases hafter : (dialect.spacing op).after = true
  · have hsign : op = "+" ∨ op = "-" := by
      by_contra hsign
      exact h ⟨not_or.mp hsign, hafter⟩
    rcases hsign with rfl | rfl <;> decide
  · have hsub : ∀ op ∈ [".", "::", "%", ".."], op ∈ tightOperators := by decide
    exact hsub _ (spacing_after (Bool.eq_false_iff.mpr hafter))

/-- Of these operators only the minus sign starts one of three characters. -/
theorem isTriple_tight {op : String} (h : op ∈ tightOperators) (hne : op ≠ "-") (r : List Char) :
    Scan.isTriple ((op.toList ++ r).take 3) = false := by
  rw [Bool.eq_false_iff]
  intro htriple
  have hhead := forall_mem_of_all (Scan.isTriple_imp
    (p := fun l => (['+', '.', ':', '%'].all fun c => decide (l.head? ≠ some c)) = true)
    (by decide) htriple)
  simp only [tightOperators, List.mem_cons, List.not_mem_nil, or_false] at h
  rcases h with rfl | rfl | rfl | rfl | rfl | rfl
  · exact hhead '+' (by decide) rfl
  · exact hne rfl
  · exact hhead '.' (by decide) rfl
  · exact hhead ':' (by decide) rfl
  · exact hhead '%' (by decide) rfl
  · exact hhead '.' (by decide) rfl

theorem sigil_tight {op : String} (h : op ∈ tightOperators) :
    (∀ c ∈ op.toList.head?, c ∉ ['?', '$', ':', '@']) ∨ op.toList = [':', ':'] := by
  have hall : ∀ op ∈ tightOperators,
      (op.toList.head?.all fun c => decide (c ∉ ['?', '$', ':', '@'])) = true ∨
        op.toList = [':', ':'] := by decide
  refine (hall op h).imp_left fun hop c hc => ?_
  rw [Option.mem_def.mp hc] at hop
  exact of_decide_eq_true hop

/-- Such an operator stops before a token that touches it and does not run together with it. -/
theorem operatorStops_touching {a : Token} {p : Piece} {qs : List Piece} {r : List Char}
    (ha : a.kind = .operator) (hne : a.text.toList ≠ [])
    (hcom : comment? dialect.lexicon (a.text.toList ++ r) = none)
    (hlen : max 1 (Scan.compoundOperator (a.text.toList ++ r)) = a.text.toList.length)
    (hops : a.text ∈ tightOperators) (hmerge : wouldMerge dialect.lexicon a p.token = false)
    (regular : p.token.Regular dialect) (kind : p.token.kind ≠ .whitespace)
    (written : Written case qs.isEmpty p.token p.text)
    (rest : Spelt dialect case (some p.token) qs tail) :
    OperatorStops dialect a.text.toList (p.text ++ spell qs tail) := by
  obtain ⟨c, cs, d, ds, htext, _, hx, hcd⟩ := written.head regular kind
  obtain ⟨hline, _, _, hdot⟩ := wouldMerge_operator ha hmerge
  refine ⟨comment?_transfer hne hcom (fun hta => ?_) (fun hta => ?_),
    Scan.operator_stop hlen (fun h => ?_) (fun _ => ?_), ?_, fun hta => ?_⟩
  · rw [hx, List.cons_append, List.head?_cons, Ne, Option.some.injEq]
    rintro rfl
    obtain rfl : c = '-' := hcd.resolve_right fun h => absurd h.2.2 (by decide)
    refine Bool.eq_false_iff.mp hline
      ((startsLineComment_iff dialect _).mpr (.inl ⟨mem_lineComments dialect, ?_⟩))
    rw [hta, htext]
    exact ⟨cs, rfl⟩
  · have htext : a.text = "/" := String.toList_inj.mp hta
    rw [htext] at hops
    exact absurd hops (by decide)
  · obtain ⟨e, he⟩ := List.length_eq_one_iff.mp h
    rw [he, hx]
    exact isDouble_touching ha hmerge he htext hcd
  · by_cases hminus : a.text = "-"
    · have hta : a.text.toList = ['-'] := by rw [hminus]; rfl
      rw [hta]
      exact isTriple_minus ha hta hmerge regular kind written rest
    · exact isTriple_tight hops hminus _
  · exact (sigil_tight hops).imp_right .inl
  · have := hdot (String.toList_inj.mp hta)
    rw [htext] at this
    rw [hx]
    rcases hcd with rfl | ⟨_, _, hd⟩
    · exact this
    · exact isDigit_of_isAlpha hd

/-- An operator is read again as it is written. -/
theorem Spelt.operatorStops {a : Token} {r : List Char} (h : Spelt dialect case (some a) ps tail)
    (ha : a.kind = .operator) (hne : a.text.toList ≠ [])
    (hcom : comment? dialect.lexicon (a.text.toList ++ r) = none)
    (hlen : max 1 (Scan.compoundOperator (a.text.toList ++ r)) = a.text.toList.length) :
    OperatorStops dialect a.text.toList (spell ps tail) := by
  rcases h.start_cases with hblank | ⟨p, qs, rfl, hgap, regular, kind, joins, written, rest⟩
  · exact operatorStops_closedEdge hne hcom hlen (atClosedEdge_blank hblank)
      fun b c _ hc => Scan.isDouble_blank (hblank c hc)
  obtain ⟨_, _, htight, hmerge⟩ := (joins.touch rfl a rfl).resolve_left (by rw [ha]; decide)
  by_cases hclosed : (a.text ≠ "+" ∧ a.text ≠ "-") ∧ (dialect.spacing a.text).after = true
  · obtain ⟨c, cs, d, ds, htext, _, hx, hcd⟩ := written.head regular kind
    refine operatorStops_closedEdge hne hcom hlen (h.closedEdge ha hclosed.1 hclosed.2) ?_
    intro e f he hf
    rw [Spelt.head_touching hgap hx, Option.some.injEq] at hf
    exact hf ▸ isDouble_touching ha hmerge he htext hcd
  · rw [spell, hgap, List.nil_append]
    exact operatorStops_touching ha hne hcom hlen (mem_tightOperators hclosed) hmerge regular kind
      written rest

/-! ## The words ahead -/

/-- A word, a number and whatever else is neither comment nor keyword nor literal is written as it
is. -/
theorem Written.eq_plain {last : Bool} {token : Token} {x : List Char}
    (h : Written case last token x) (hk : token.isKeyword = false)
    (hc : token.kind.isComment = false) (hlit : token.kind ≠ .string ∧ token.kind ≠ .namedPlaceholder) :
    x = token.text.toList := by
  cases h with
  | lineComment h => rw [h] at hc; cases hc
  | blockComment h => rw [h] at hc; cases hc
  | keyword h => rw [h] at hk; cases hk
  | same => rfl
  | trimmed _ h => exact (h.elim hlit.1 hlit.2).elim

/-- A line comment loses the white space at its end. -/
theorem Written.eq_lineComment {last : Bool} {token : Token} {x : List Char}
    (h : Written case last token x) (hk : token.kind = .lineComment) :
    x = dropWhileEnd isWhite token.text.toList := by
  cases h with
  | lineComment => rfl
  | blockComment h => rw [hk] at h; cases h
  | keyword h => simp [Token.isKeyword, hk, TokenKind.isReserved] at h
  | same h => rw [hk] at h; cases h
  | trimmed => rfl

/-- A block comment is written with other white space. -/
theorem Written.reflow {last : Bool} {token : Token} {x : List Char}
    (h : Written case last token x) (hk : token.kind = .blockComment) :
    Reflow token.text.toList x := by
  cases h with
  | lineComment h => rw [hk] at h; cases h
  | blockComment _ hx => exact hx
  | keyword h => simp [Token.isKeyword, hk, TokenKind.isReserved] at h
  | same h => rw [hk] at h; cases h
  | trimmed _ h => rw [hk] at h; exact absurd h (by decide)

/-- A keyword is written in the case that is asked for, with single spaces. -/
theorem Written.eq_keyword {last : Bool} {token : Token} {x : List Char}
    (h : Written case last token x) (hk : token.isKeyword = true) :
    x = (case.apply (normalizePhrase token.text)).toList := by
  have hkind : token.kind.isReserved = true ∨ token.kind = .openParen ∨ token.kind = .closeParen := by
    simp only [Token.isKeyword, Bool.or_eq_true, Bool.and_eq_true, beq_iff_eq] at hk
    tauto
  cases h with
  | lineComment h => rw [h] at hkind; exact absurd hkind (by decide)
  | blockComment h => rw [h] at hkind; exact absurd hkind (by decide)
  | keyword => rfl
  | same _ h => rw [h] at hk; cases hk
  | trimmed _ h => rcases h with h | h <;> rw [h] at hkind <;> exact absurd hkind (by decide)

/-- What may stand directly after a keyword. -/
theorem Spelt.atEdge_keyword {a : Token} (h : Spelt dialect case (some a) ps tail)
    (hk : a.isKeyword = true) : AtEdge (spell ps tail) := by
  have hkind : a.kind.isReserved = true ∨
      (a.kind = .openParen ∨ a.kind = .closeParen) ∧ a.isBracket = false := by
    simpa [Token.isKeyword] using hk
  have hbracket : a.isBracket = false := by
    rcases hkind with h | h
    · rw [Token.isBracket, Bool.and_eq_false_iff]
      left
      cases hk : a.kind <;> rw [hk] at h <;> first | rfl | cases h
    · exact h.2
  refine (h.atEdge ?_ ?_ (by simp [hbracket])).1
  · rcases hkind with h | ⟨h | h, _⟩
    · cases hk : a.kind <;> rw [hk] at h <;> first | rfl | cases h
    · rw [h]; rfl
    · rw [h]; rfl
  · rintro heq
    rw [heq] at hkind
    exact absurd hkind (by simp [TokenKind.isReserved])

/-- A string that loses white space keeps the letter and the quote that it starts with. -/
theorem Written.string_head {last : Bool} {token : Token} {x : List Char} {c : Char} {cs : List Char}
    (h : Written case last token x) (hk : token.kind = .string)
    (htext : token.text.toList = c :: '\x27' :: cs) (hr : token.Regular dialect) :
    ∃ ds, x = c :: '\x27' :: ds := by
  have hc : isWhite c = false := by
    obtain ⟨d, hd, hw⟩ := hr.opening (.inr (by rw [hk]; rfl))
    rw [htext] at hd
    exact Option.some.inj hd ▸ hw
  cases h with
  | lineComment h => rw [h] at hk; cases hk
  | blockComment h => rw [h] at hk; cases hk
  | keyword h => simp [Token.isKeyword, hk, TokenKind.isReserved] at h
  | same => exact ⟨cs, htext⟩
  | trimmed =>
    rw [htext, dropWhileEnd_cons hc, dropWhileEnd_cons (by decide)]
    exact ⟨_, rfl⟩

section Cut

variable {token : Token} {qs : List Piece} {c : Char} {cs r x : List Char} {g g' : List Char}

/-- Of a string with a letter before its quote only the letter counts. -/
theorem wordsAhead_string {last : Bool} (hkind : token.kind = .string)
    (htext : token.text.toList = c :: '\x27' :: cs) (hc : c.isAlpha = true)
    (regular : token.Regular dialect) (written : Written case last token x) (hg : IsGap g)
    (hg' : IsGap g') (r r' : List Char) (n : Nat) :
    wordsAhead (n + 1) (g ++ (c :: ('\x27' :: cs ++ r))) = wordsAhead (n + 1) (g' ++ (x ++ r')) := by
  obtain ⟨ds, rfl⟩ := written.string_head hkind htext regular
  exact (wordsAhead_quote hg hc _ n).trans (wordsAhead_quote hg' hc _ n).symm

variable (rest : Spelt dialect case (some token) qs tail)
  (ih : endsWord r = true → endsWord (spell qs tail) = true → Facing r (spell qs tail))

include rest ih

/-- A word is written as it is, and the words after it follow. -/
theorem wordsAhead_plainWord (hkind : token.kind = .word) (htext : token.text.toList = c :: cs)
    (hc : c.isAlpha = true) (hword : Scan.word ((c :: cs) ++ r) = (c :: cs).length)
    (written : Written case qs.isEmpty token x) (hg : IsGap g) (hg' : IsGap g') (n : Nat) :
    wordsAhead (n + 1) (g ++ ((c :: cs) ++ r)) = wordsAhead (n + 1) (g' ++ (x ++ spell qs tail)) := by
  have hx : x = c :: cs := by
    rw [← htext]
    exact written.eq_plain (by simp [Token.isKeyword, hkind, TokenKind.isReserved])
      (by rw [hkind]; rfl) (by rw [hkind]; exact ⟨by decide, by decide⟩)
  obtain ⟨hisWord, hends⟩ := isWord_of_word (by simp) hword
  have hedge := (rest.atEdge (by rw [hkind]; rfl) (by rw [hkind]; decide)
    (by simp [Token.isBracket, hkind])).1
  have hfacing := ih hends hedge.endsWord
  rw [hx, hg.wordsAhead hisWord hc hends n, hg'.wordsAhead hisWord hc hedge.endsWord n,
    hfacing.ahead n]

/-- A keyword is written with its words respaced and recased. -/
theorem wordsAhead_keyword (hkeyword : token.isKeyword = true) (htext : token.text.toList = c :: cs)
    (regular : token.Regular dialect) (written : Written case qs.isEmpty token x)
    (hends : endsWord r = true) (hg : IsGap g) (hg' : IsGap g') (n : Nat) :
    wordsAhead n (g ++ ((c :: cs) ++ r)) = wordsAhead n (g' ++ (x ++ spell qs tail)) := by
  have hrespaced := respaced_keyword regular.toSound hkeyword case
  rw [← written.eq_keyword hkeyword, htext] at hrespaced
  exact hrespaced.wordsAhead (ih hends (rest.atEdge_keyword hkeyword).endsWord) hg hg' n

end Cut

/-- One cut: a token and its writing show the same words if what follows them does. -/
theorem facing_cut {memory : Memory} {text g : List Char} {found : Lexeme} {pos : Nat} {p : Piece}
    {qs : List Piece} (h : Reads dialect.lexicon memory text found) (hne : text ≠ [])
    (hg : ∀ c ∈ g, isBlank c = true) (hgap : ∀ c ∈ p.gap, isBlank c = true)
    (htoken : p.token = found.token text pos) (regular : p.token.Regular dialect)
    (kind : p.token.kind ≠ .whitespace) (written : Written case qs.isEmpty p.token p.text)
    (rest : Spelt dialect case (some p.token) qs tail)
    (ih : endsWord (text.drop found.length) = true → endsWord (spell qs tail) = true →
      Facing (text.drop found.length) (spell qs tail))
    (left : endsWord (g ++ text) = true)
    (right : endsWord (p.gap ++ (p.text ++ spell qs tail)) = true) :
    Facing (g ++ text) (p.gap ++ (p.text ++ spell qs tail)) := by
  obtain ⟨c, cs, d, ds, htext, hb, hx, hcd⟩ := written.head regular kind
  have htake : text.take found.length = c :: cs := by
    rw [← htext, htoken, Lexeme.token_text, String.toList_ofList]
  have hlength : (c :: cs).length = found.length := by
    rw [← htake, List.length_take, min_eq_left (h.length_le hne)]
  generalize hr : text.drop found.length = r at ih
  obtain rfl : text = c :: (cs ++ r) := by
    rw [← List.cons_append, ← htake, ← hr, List.take_append_drop]
  by_cases hc : c.isAlpha = true
  · have hd : d.isAlpha = true := by
      rcases hcd with rfl | ⟨_, _, hd⟩
      · exact hc
      · exact hd
    refine .of_words hg hgap hc (by rw [hx]; exact hd) left right ?_
    rintro (_ | n) hgap₁ hgap₂
    · rfl
    rcases h.alpha hc with ⟨hkind, hlen, hquote⟩ | hword
    · obtain ⟨cs', rfl⟩ : ∃ cs', cs = '\x27' :: cs' := by
        cases cs with
        | nil =>
          rw [List.length_singleton] at hlength
          omega
        | cons e cs => exact ⟨cs, by simpa using hquote⟩
      exact wordsAhead_string (by rw [htoken]; exact hkind) htext hc regular written hgap₁ hgap₂ r _ n
    · obtain ⟨hstart, hplain | ⟨_, halpha, kind', key, length, hkey, hfound⟩⟩ := word?_eq_some hword
      · obtain rfl := hplain.2
        exact wordsAhead_plainWord rest ih (by rw [htoken]; rfl) htext hc hlength.symm written hgap₁
          hgap₂ n
      · have hkeyword : p.token.isKeyword = true := by
          rw [htoken, hfound]
          exact isKeyword_of_keyword? _ hkey halpha pos
        have hends : endsWord r = true := by
          rw [← hr, hfound]
          exact endsWord_of_phrases (keyword?_eq_some hkey).1
            (by simp [Scan.isWordChar, Char.isAlphanum, hc])
        exact wordsAhead_keyword rest ih hkeyword htext regular written hends hgap₁ hgap₂ (n + 1)
  · obtain rfl : c = d := hcd.resolve_right fun h => hc h.2.1
    exact .of_head hg hgap hb (by rw [hx]; exact hb) left right (by simpa using hc)
      (by rw [hx]; simpa using hc) (by rw [hx]; rfl)

/-- What is written after a token shows the words that its source did. -/
theorem Spelt.facing (dialect : Dialect) (case : KeywordCase) (memory : Memory) (pos : Nat)
    (r : List Char) :
    ∀ (before : Option Token) (ps : List Piece) (tail g : List Char),
      (∀ c ∈ g, isBlank c = true) →
      ps.map (·.token) =
        (tokensFrom dialect.lexicon memory pos r).filter (·.kind != .whitespace) →
      Spelt dialect case before ps tail → endsWord (g ++ r) = true →
      endsWord (spell ps tail) = true → Facing (g ++ r) (spell ps tail) := by
  induction memory, pos, r using cut_induction dialect with
  | nil memory pos =>
    intro before ps tail g hg hps hsp left right
    obtain rfl : ps = [] := by simpa [tokensFrom_nil] using hps
    cases hsp with
    | nil blank _ =>
      rw [spell] at right ⊢
      have : Facing (g ++ []) (tail ++ []) :=
        Facing.of_head hg blank rfl rfl left (by simpa using right) rfl rfl rfl
      simpa using this
  | cut memory pos text found hne h ih =>
    intro before ps tail g hg hps hsp left right
    rw [tokensFrom_cons dialect memory pos hne h] at hps
    by_cases hw : found.kind = .whitespace
    · rw [List.filter_cons_of_neg (by simpa using hw)] at hps
      have hblank : ∀ c ∈ text.take found.length, isBlank c = true := by
        rw [h.whitespace hw]
        intro c hc
        rw [Lexeme.plain, Scan.blanks, ← List.prefix_iff_eq_take.mp (List.takeWhile_prefix _)] at hc
        exact List.mem_takeWhile_imp hc
      have := ih before ps tail (g ++ text.take found.length)
        (fun c hc => (List.mem_append.mp hc).elim (hg c) (hblank c)) hps hsp
        (by rwa [List.append_assoc, List.take_append_drop]) right
      rwa [List.append_assoc, List.take_append_drop] at this
    · rw [List.filter_cons_of_pos (by simpa using hw)] at hps
      cases hsp with
      | nil => simp at hps
      | @cons _ p qs _ regular kind joins written rest =>
        rw [List.map_cons, List.cons.injEq] at hps
        obtain ⟨htoken, hqs⟩ := hps
        exact facing_cut h hne hg joins.blank htoken regular kind written rest
          (fun hl hr => ih (some p.token) qs tail [] (by simp) hqs rest hl hr) left right

end SqlFormat

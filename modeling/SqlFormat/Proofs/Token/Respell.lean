import Mathlib
import SqlFormat.Proofs.Token.Spell

/-!
# Reading back what was written

A text that is spelt out from the tokens of another is cut into the same tokens again, with the
blanks between them as the only other ones. A literal that was left open at the end of the text takes
in the blanks that come last.

Results: `Reads.respell` (one token), `relexed` (all of them).
-/

namespace SqlFormat.Lexer

open Text

/-! ## Memories that tell the lexer the same -/

/-- What the lexer asks of the last token. -/
structure Resembles (a b : Token) : Prop where
  kind : a.kind = b.kind
  keyText : a.keyText = b.keyText
  isBracket : a.isBracket = b.isBracket
  isOperator : ∀ op, a.isOperator op = b.isOperator op

theorem Resembles.of_text {a b : Token} (hk : a.kind = b.kind) (ht : a.text = b.text) :
    Resembles a b := by
  refine ⟨hk, ?_, ?_, fun op => ?_⟩
  · rw [Token.keyText, ht, Token.keyText]
  · rw [Token.isBracket, hk, ht, Token.isBracket]
  · rw [Token.isOperator, hk, ht, Token.isOperator]

/-- Two memories after which a text is read alike. -/
structure Memory.Alike (m m' : Memory) : Prop where
  last : (m.last = none ∧ m'.last = none) ∨
    ∃ a b, m.last = some a ∧ m'.last = some b ∧ Resembles a b
  positional : m.positional = m'.positional

variable {dialect : Dialect} {case : KeywordCase} {m m' : Memory}

namespace Memory.Alike

theorem refl (m : Memory) : m.Alike m where
  last := by
    cases h : m.last with
    | none => exact .inl ⟨rfl, rfl⟩
    | some a => exact .inr ⟨a, a, rfl, rfl, .of_text rfl rfl⟩
  positional := rfl

theorem map_kind (h : m.Alike m') : m.last.map (·.kind) = m'.last.map (·.kind) := by
  rcases h.last with ⟨h₁, h₂⟩ | ⟨a, b, h₁, h₂, hab⟩
  · rw [h₁, h₂]
  · rw [h₁, h₂, Option.map_some, Option.map_some, hab.kind]

theorem any_isOperator (h : m.Alike m') (op : String) :
    m.last.any (·.isOperator op) = m'.last.any (·.isOperator op) := by
  rcases h.last with ⟨h₁, h₂⟩ | ⟨a, b, h₁, h₂, hab⟩
  · rw [h₁, h₂]
  · rw [h₁, h₂, Option.any_some, Option.any_some, hab.isOperator]

theorem atStatementStart (h : m.Alike m') : m.atStatementStart = m'.atStatementStart := by
  rcases h.last with ⟨h₁, h₂⟩ | ⟨a, b, h₁, h₂, hab⟩
  · rw [Memory.atStatementStart, Memory.atStatementStart, h₁, h₂]
  · rw [Memory.atStatementStart, Memory.atStatementStart, h₁, h₂]
    simp only [hab.isOperator, hab.kind, hab.isBracket, hab.keyText]

/-- Reading tokens that resemble each other leaves memories alike. -/
theorem after (h : m.Alike m') {a b : Token} (hk : a.kind = b.kind)
    (hab : a.kind.isSignificant = true → Resembles a b)
    (ht : a.kind = .indexedPlaceholder → a.text = b.text) : (m.after a).Alike (m'.after b) where
  last := by
    simp only [Memory.after, ← hk]
    split
    · next hs => exact .inr ⟨a, b, rfl, rfl, hab hs⟩
    · exact h.last
  positional := by
    simp only [Memory.after, ← hk, h.positional]
    by_cases hi : a.kind = .indexedPlaceholder
    · rw [ht hi]
    · simp [hi]

/-- White space is not remembered. -/
theorem after_whitespace (m : Memory) {a : Token} (hk : a.kind = .whitespace) : m.after a = m := by
  simp [Memory.after, hk, TokenKind.isSignificant]

end Memory.Alike

/-! ## One token -/

/-- A text to which any further character would belong: a literal that nothing closes. -/
def Open (lexicon : Lexicon) (text : List Char) : Prop :=
  ∀ memory c, (lexeme lexicon memory (text ++ [c])).length = text.length + 1

/-- A literal, as opposed to a comment, that may be left open. -/
def isLiteral (kind : TokenKind) : Bool :=
  kind == .string || kind == .namedPlaceholder

/-- The token is read back from its writing, or it is left open and takes in what comes last. -/
def ReadsBack (dialect : Dialect) (memory : Memory) (found : Lexeme) (t x : List Char)
    (ps : List Piece) (tail : List Char) : Prop :=
  (Reads dialect.lexicon memory (x ++ spell ps tail) ⟨found.kind, x.length, found.key⟩ ∧
      (isLiteral found.kind = true → x = t)) ∨
    (ps = [] ∧ canBeOpen found.kind = true ∧
      (found.kind ≠ .blockComment → Open dialect.lexicon t) ∧
      ∃ key, (found.kind = .blockComment → key = found.key) ∧
        Reads dialect.lexicon memory (x ++ tail) ⟨found.kind, (x ++ tail).length, key⟩)

variable {ps : List Piece} {tail : List Char} {token : Token} {t r x : List Char} {found : Lexeme}

/-- What follows a line comment starts on the next line. -/
theorem reads_lineComment (hk : token.kind = .lineComment)
    (rest : Spelt dialect case (some token) ps tail) :
    spell ps tail = [] ∨ (spell ps tail).head? = some '\n' := by
  cases rest with
  | nil _ lineEnd =>
    have := lineEnd token rfl hk
    cases tail with
    | nil => exact .inl rfl
    | cons c tail => exact .inr (by simpa [spell] using this)
  | @cons _ p qs _ _ _ joins _ _ =>
    have hhead := joins.lineEnd token rfl hk
    right
    cases hgap : p.gap with
    | nil => rw [hgap] at hhead; cases hhead
    | cons g gap => rw [spell, hgap, List.cons_append, List.head?_cons, ← hhead, hgap]; rfl

theorem not_isLiteral_of_keyword {kind : TokenKind} (hk : token.kind = kind)
    (h : token.isKeyword = true) : isLiteral kind = false := by
  have hkind : ∀ kind : TokenKind, kind.isReserved = true ∨ kind = .openParen ∨
      kind = .closeParen → isLiteral kind = false := by
    intro kind
    cases kind <;> decide
  refine hkind _ ?_
  simp only [Token.isKeyword, hk, Bool.or_eq_true, Bool.and_eq_true, beq_iff_eq] at h
  tauto

theorem isKeyword_congr {a b : Token} (hk : a.kind = b.kind) (ht : a.text = b.text) :
    a.isKeyword = b.isKeyword := by
  rw [Token.isKeyword, Token.isKeyword, Token.isBracket, Token.isBracket, hk, ht]

/-- The kinds of tokens that are written as they are and that words may not touch. -/
def standsAlone (kind : TokenKind) : Bool :=
  kind == .word || kind == .number || kind == .indexedPlaceholder || kind == .string ||
    kind == .namedPlaceholder

theorem atEdge_of_standsAlone (hk : standsAlone token.kind = true)
    (rest : Spelt dialect case (some token) ps tail) :
    AtEdge (spell ps tail) ∧
      (dialect.lexicon.bracketParens = false → (spell ps tail).head? ≠ some ']') := by
  have hkind : ∀ kind, standsAlone kind = true → kind.isComment = false ∧ kind ≠ .operator ∧
      kind ≠ .openParen ∧ kind ≠ .closeParen := by
    intro kind
    cases kind <;> decide
  obtain ⟨hc, ho, hp, hp'⟩ := hkind _ hk
  exact rest.atEdge hc ho (by simp [Token.isBracket, hp, hp'])

theorem eq_text_of_standsAlone (hk : standsAlone token.kind = true)
    (hlit : token.kind ≠ .string ∧ token.kind ≠ .namedPlaceholder) {last : Bool}
    (written : Written case last token x) : x = token.text.toList := by
  have hkind : ∀ kind, standsAlone kind = true → kind.isComment = false ∧ kind.isReserved = false ∧
      kind ≠ .openParen ∧ kind ≠ .closeParen := by
    intro kind
    cases kind <;> decide
  obtain ⟨hc, hres, hp, hp'⟩ := hkind _ hk
  exact written.eq_plain (by simp [Token.isKeyword, hres, hp, hp']) hc hlit

/-- A token with the text `t` before `r` in a first text, and its writing `x` before the pieces `ps` and
the blanks `tail` in a second one. -/
structure Respelt (dialect : Dialect) (case : KeywordCase) (found : Lexeme) (token : Token)
    (t r x : List Char) (ps : List Piece) (tail : List Char) : Prop where
  length : found.length = t.length
  nonempty : t ≠ []
  kind : token.kind = found.kind
  text : token.text.toList = t
  regular : token.Regular dialect
  written : Written case ps.isEmpty token x
  rest : Spelt dialect case (some token) ps tail
  facing : endsWord r = true → endsWord (spell ps tail) = true → Facing r (spell ps tail)
  last : r = [] → ps = []

namespace Respelt

variable (h : Respelt dialect case found token t r x ps tail)
include h

theorem atEdge (hk : standsAlone found.kind = true) : AtEdge (spell ps tail) :=
  (atEdge_of_standsAlone (h.kind ▸ hk) h.rest).1

theorem eq_text (hk : standsAlone found.kind = true) (hlit : isLiteral found.kind = false) :
    x = t := by
  rw [isLiteral, Bool.or_eq_false_iff, beq_eq_false_iff_ne, beq_eq_false_iff_ne] at hlit
  rw [← h.text]
  exact eq_text_of_standsAlone (h.kind ▸ hk) (h.kind ▸ hlit) h.written

/-! ### Comments -/

theorem comment (hread : comment? dialect.lexicon (t ++ r) = some found) :
    ReadsBack dialect m' found t x ps tail := by
  rcases comment?_eq_some hread with ⟨hstart, rfl⟩ | ⟨-, hstart, rfl⟩
  · obtain rfl : x = dropWhileEnd isWhite t := by
      rw [← h.text]
      exact h.written.eq_lineComment h.kind
    exact .inl ⟨reread_lineComment hstart h.length (reads_lineComment h.kind h.rest),
      fun hlit => by cases hlit⟩
  · have hx := h.written.reflow h.kind
    rw [h.text] at hx
    rcases reread_blockComment dialect m' hstart h.length hx with hclosed | ⟨hr, hopen⟩
    · exact .inl ⟨hclosed _, fun hlit => by cases hlit⟩
    · exact .inr ⟨h.last hr, rfl, fun hkind => absurd rfl hkind, none, fun _ => rfl,
        hopen tail (h.last hr ▸ h.rest).allWhite_tail⟩

/-! ### Literals -/

/-- A literal is written as it is, but that blanks at the end of an open one may go. -/
theorem literal_writing (hkind : found.kind = .string ∨ found.kind = .namedPlaceholder) :
    x = t ∨ x = dropWhileEnd isWhite t := by
  have hk := h.kind
  cases h.written with
  | lineComment => exact .inr (by rw [h.text])
  | blockComment hblock =>
    rw [hblock] at hk
    rw [← hk] at hkind
    exact absurd hkind (by decide)
  | keyword hkeyword =>
    have : token.isKeyword = false := by
      rcases hkind with hkind | hkind <;> simp [Token.isKeyword, hk, hkind, TokenKind.isReserved]
    rw [this] at hkeyword
    cases hkeyword
  | same => exact .inl h.text
  | trimmed => exact .inr (by rw [h.text])

theorem literal {stop : List Char → Prop} (hread : Rereads dialect found.kind found.key stop t r)
    (hkind : found.kind = .string ∨ found.kind = .namedPlaceholder) (hstop : stop (spell ps tail)) :
    ReadsBack dialect m' found t x ps tail := by
  have hx := h.literal_writing hkind
  rcases hread with ⟨htidy, hreads⟩ | ⟨hr, hmore, hopen⟩
  · have hx : x = t := by
      rcases hx with hx | hx
      · exact hx
      · rw [hx]
        exact htidy.trimmed (h.text ▸ h.regular.white)
    rw [hx]
    exact .inl ⟨hreads m' _ hstop, fun _ => rfl⟩
  · obtain ⟨w, ht, hw⟩ : ∃ w, t = x ++ w ∧ AllWhite w := by
      rcases hx with rfl | rfl
      · exact ⟨[], by simp, by simp [AllWhite]⟩
      · obtain ⟨w, ht, hw⟩ := dropWhileEnd_spec isWhite t
        exact ⟨w, ht, hw⟩
    obtain ⟨key, hreads⟩ := hopen m' x w tail ht hw (h.last hr ▸ h.rest).allWhite_tail
    refine .inr ⟨h.last hr, ?_, fun _ memory c => ?_, key, fun hblock => ?_, hreads⟩
    · rcases hkind with hkind | hkind <;> rw [hkind] <;> rfl
    · obtain ⟨key, hreads⟩ := hmore memory c
      rw [hreads.eq]
    · rw [hblock] at hkind
      exact absurd hkind (by decide)

theorem dollar (hread : dollarString? dialect.lexicon (t ++ r) = some found) :
    ReadsBack dialect m' found t x ps tail := by
  obtain ⟨hq, n, hn, rfl⟩ := dollarString?_eq_some hread
  obtain rfl : n = t.length := h.length
  exact h.literal (rereads_dollar hq hn) (.inl rfl) trivial

theorem quoted (hread : quotedString? dialect.lexicon (t ++ r) = some found) :
    ReadsBack dialect m' found t x ps tail := by
  obtain ⟨c, cs, rfl⟩ := List.exists_cons_of_ne_nil h.nonempty
  obtain ⟨c', cs', style, heq, hstyle, rfl⟩ := quotedString?_eq_some hread
  obtain ⟨rfl, rfl⟩ := List.cons.inj heq
  obtain ⟨hedge, hsquare⟩ := atEdge_of_standsAlone (by rw [h.kind]; rfl) h.rest
  refine h.literal (rereads_quoted hstyle h.length) (.inl rfl) ?_
  -- no string ends with an edge, square brackets apart
  rcases dialect.delimits.closing style (stringStyle?_eq_some hstyle).1 with hclose | ⟨hclose, hp⟩
  · refine hedge.ne ?_
    simp only [List.mem_cons, List.not_mem_nil, or_false] at hclose
    rcases hclose with h | h | h <;> rw [h] <;> decide
  · rw [hclose]
    exact hsquare hp

theorem prefixed (hread : prefixedString? dialect.lexicon (t ++ r) = some found) :
    ReadsBack dialect m' found t x ps tail := by
  obtain ⟨c, cs, rfl⟩ := List.exists_cons_of_ne_nil h.nonempty
  obtain ⟨letter, cs', backslash, heq, hl, rfl⟩ := prefixedString?_eq_some hread
  rw [List.cons_append] at heq
  obtain ⟨rfl, hcs⟩ := List.cons.inj heq
  have hlen := h.length
  obtain ⟨b, rfl⟩ : ∃ b, cs = '\x27' :: b := by
    cases cs with
    | nil => simp only [Lexeme.plain, Scan.string, List.length_singleton] at hlen; omega
    | cons d b => exact ⟨b, by rw [(List.cons.inj hcs).1]⟩
  obtain rfl := (List.cons.inj hcs).2
  exact h.literal (rereads_prefixed hl hlen) (.inl rfl) ((h.atEdge rfl).ne (by decide))

theorem named (hi : indexedPlaceholder? dialect.lexicon m (t ++ r) = none)
    (hread : namedPlaceholder? dialect.lexicon (t ++ r) = some found) :
    ReadsBack dialect m' found t x ps tail := by
  obtain ⟨c, cs, rfl⟩ := List.exists_cons_of_ne_nil h.nonempty
  obtain ⟨c', cs', n, name, heq, hc, hn, rfl⟩ := namedPlaceholder?_eq_some hread
  rw [List.cons_append] at heq
  obtain ⟨rfl, rfl⟩ := List.cons.inj heq
  obtain rfl : n = cs.length := by
    have hlen := h.length
    simp only [List.length_cons] at hlen
    omega
  have hedge := h.atEdge rfl
  refine h.literal (rereads_named hc hi hn) (.inr rfl) ⟨hedge.endsWord, ?_⟩
  simp only [List.mem_cons, List.not_mem_nil, or_false, not_or]
  exact ⟨hedge.ne (by decide), hedge.ne (by decide), hedge.ne (by decide)⟩

/-! ### Words -/

/-- A word that is none of the language. -/
theorem plainWord (hm : m.Alike m') (hstart : (t ++ r).head?.any Scan.isWordStart = true)
    (hplain : m.last.any (·.isOperator ".") = true ∨ (t ++ r).head?.any Char.isAlpha = false ∨
      keyword? dialect.lexicon (t ++ r) = none)
    (hfound : found = .plain .word (Scan.word (t ++ r))) :
    ReadsBack dialect m' found t x ps tail := by
  subst hfound
  obtain ⟨c, cs, rfl⟩ := List.exists_cons_of_ne_nil h.nonempty
  obtain rfl := h.eq_text rfl rfl
  have hedge := h.atEdge rfl
  have hlen : Scan.word ((c :: cs) ++ r) = (c :: cs).length := h.length
  obtain ⟨hword, hends⟩ := isWord_of_word (by simp) hlen
  rw [hlen]
  exact .inl ⟨reread_word hstart hword (h.facing hends hedge.endsWord) (hedge.ne (by decide))
    (hm.any_isOperator ".") hplain, fun hlit => by cases hlit⟩

/-- A keyword, which may be written in another case. -/
theorem keyword (hm : m.Alike m') (hlast : m.last.any (·.isOperator ".") = false)
    (halpha : (t ++ r).head?.any Char.isAlpha = true) {kind : TokenKind} {key : String}
    (hkey : keyword? dialect.lexicon (t ++ r) = some (kind, key, t.length))
    (hfound : found = .plain (m.refine kind key r) t.length) :
    ReadsBack dialect m' found t x ps tail := by
  have hkeyword : token.isKeyword = true := by
    have := isKeyword_of_keyword? m hkey halpha 0
    rw [List.drop_left' rfl, ← hfound] at this
    rw [← this]
    refine isKeyword_congr h.kind ?_
    rw [← String.toList_inj, h.text, Lexeme.token_text, String.toList_ofList, h.length]
    exact (List.take_left' rfl).symm
  have hx := respaced_keyword h.regular.toSound hkeyword case
  rw [← h.written.eq_keyword hkeyword, h.text] at hx
  have hends := endsWord_of_phrases (keyword?_eq_some hkey).1
    (by
      rw [Option.any_eq_true] at halpha ⊢
      obtain ⟨d, hd, ha⟩ := halpha
      exact ⟨d, hd, by simp [Scan.isWordChar, Char.isAlphanum, ha]⟩)
  rw [List.drop_left' rfl] at hends
  have hedge := h.rest.atEdge_keyword hkeyword
  have hlit := not_isLiteral_of_keyword h.kind hkeyword
  rw [hfound] at hlit ⊢
  refine .inl ⟨reread_keyword hx (h.facing hends hedge.endsWord) (hedge.ne (by decide))
    (hm.any_isOperator "." ▸ hlast) hm.atStatementStart hkey, fun habs => ?_⟩
  exact absurd habs (by simpa using hlit)

theorem word (hm : m.Alike m') (hread : word? dialect.lexicon m (t ++ r) = some found) :
    ReadsBack dialect m' found t x ps tail := by
  obtain ⟨hstart, ⟨hplain, hfound⟩ | ⟨hlast, halpha, kind, key, length, hkey, rfl⟩⟩ :=
    word?_eq_some hread
  · exact h.plainWord hm hstart hplain hfound
  · obtain rfl : length = t.length := h.length
    exact h.keyword hm hlast halpha hkey (by rw [List.drop_left' rfl])

theorem sessionVariable (hread : sessionVariable? dialect.lexicon (t ++ r) = some found) :
    ReadsBack dialect m' found t x ps tail := by
  have hkind : found.kind = .word := by
    obtain ⟨_, _, _, _, _, _, _, rfl⟩ := sessionVariable?_eq_some hread
    rfl
  obtain rfl := h.eq_text (by rw [hkind]; rfl) (by rw [hkind]; rfl)
  have hedge := h.atEdge (by rw [hkind]; rfl)
  have := reread_sessionVariable m' hread h.length h.nonempty hedge.endsWord
  exact .inl ⟨h.length ▸ this, fun _ => rfl⟩

/-! ### Numbers, brackets and operators -/

theorem indexed (hm : m.Alike m')
    (hread : indexedPlaceholder? dialect.lexicon m (t ++ r) = some found) :
    ReadsBack dialect m' found t x ps tail := by
  have hkind : found.kind = .indexedPlaceholder := by
    obtain ⟨_, _, _, _, ⟨_, rfl⟩ | ⟨_, _, rfl⟩⟩ := indexedPlaceholder?_eq_some hread <;> rfl
  obtain rfl := h.eq_text (by rw [hkind]; rfl) (by rw [hkind]; rfl)
  have hedge := h.atEdge (by rw [hkind]; rfl)
  have := reread_indexed hm.positional hread h.length h.nonempty (hedge.any (by decide))
  exact .inl ⟨h.length ▸ this, fun _ => rfl⟩

theorem number (hm : m.Alike m') (hread : number? m (t ++ r) = some found) :
    ReadsBack dialect m' found t x ps tail := by
  obtain ⟨-, rfl⟩ := number?_eq_some hread
  have hlen : Scan.number (t ++ r) = t.length := h.length
  obtain rfl := h.eq_text rfl rfl
  have hstops := h.rest.numberStops h.kind (by rw [h.text]; exact Scan.number_alone hlen)
  rw [h.text] at hstops
  rw [hlen] at hread ⊢
  exact .inl ⟨reread_number hm.map_kind hread h.nonempty hstops, fun hlit => by cases hlit⟩

theorem isBracket_of_bracket? (hread : bracket? dialect.lexicon (t ++ r) = some found) :
    token.isBracket = true := by
  obtain ⟨c, cs, rfl⟩ := List.exists_cons_of_ne_nil h.nonempty
  obtain ⟨c', cs', heq, hcases⟩ := bracket?_eq_some hread
  obtain ⟨rfl, -⟩ := List.cons.inj heq
  have hlen := h.length
  have hkind := h.kind
  rcases hcases with ⟨rfl, rfl⟩ | ⟨rfl, rfl⟩ | ⟨_, rfl, rfl⟩ | ⟨_, rfl, rfl⟩ <;>
    · obtain rfl : cs = [] := by simpa [Lexeme.plain] using hlen.symm
      rw [Token.isBracket, hkind, String.toList_inj.mp (h.text.trans String.toList_ofList.symm)]
      decide

theorem bracket (bare : Bare dialect.lexicon (t ++ r))
    (hread : bracket? dialect.lexicon (t ++ r) = some found) :
    ReadsBack dialect m' found t x ps tail := by
  obtain rfl : x = t := by
    rw [← h.text]
    exact h.written.eq_text (.inl (h.isBracket_of_bracket? hread))
  have := reread_bracket m' (spell ps tail) hread h.length h.nonempty bare.quoted
  exact .inl ⟨h.length ▸ this, fun _ => rfl⟩

theorem operator (hm : m.Alike m') (bare : Bare dialect.lexicon (t ++ r))
    (hw : word? dialect.lexicon m (t ++ r) = none)
    (hi : indexedPlaceholder? dialect.lexicon m (t ++ r) = none)
    (hn : namedPlaceholder? dialect.lexicon (t ++ r) = none)
    (hv : sessionVariable? dialect.lexicon (t ++ r) = none) (hnum : number? m (t ++ r) = none)
    (hp : bracket? dialect.lexicon (t ++ r) = none) (hfound : found = Lexer.operator (t ++ r)) :
    ReadsBack dialect m' found t x ps tail := by
  subst hfound
  obtain rfl : x = t := by
    rw [← h.text]
    exact h.written.eq_text (.inr h.kind)
  have hstops := h.rest.operatorStops (r := r) h.kind (by rw [h.text]; exact h.nonempty)
    (by rw [h.text]; exact bare.comment) (by rw [h.text]; exact h.length)
  rw [h.text] at hstops
  have := reread_operator hm.map_kind bare hw hi hn hv hnum hp h.nonempty hstops.comment
    hstops.length hstops.sigil hstops.dot
  exact .inl ⟨this, fun hlit => by cases hlit⟩

end Respelt

/-- One token is read back from its writing, whichever rule read it. -/
theorem Reads.respell (hm : m.Alike m') (h : Reads dialect.lexicon m (t ++ r) found)
    (kind : found.kind ≠ .whitespace) (hspelt : Respelt dialect case found token t r x ps tail) :
    ReadsBack dialect m' found t x ps tail := by
  cases h with
  | blanks h =>
    obtain ⟨_, rfl⟩ := blanks?_eq_some h
    exact absurd rfl kind
  | comment _ h => exact hspelt.comment h
  | dollar _ _ h => exact hspelt.dollar h
  | quoted _ _ _ h => exact hspelt.quoted h
  | prefixed _ _ _ _ h => exact hspelt.prefixed h
  | word _ h => exact hspelt.word hm h
  | indexed _ _ h => exact hspelt.indexed hm h
  | named _ _ hi h => exact hspelt.named hi h
  | sessionVariable _ _ _ _ h => exact hspelt.sessionVariable h
  | number _ _ _ _ _ h => exact hspelt.number hm h
  | bracket bare _ _ _ _ _ h => exact hspelt.bracket bare h
  | operator bare hw hi hn hv hnum hp => exact hspelt.operator hm bare hw hi hn hv hnum hp rfl

/-! ## All tokens -/

/-- Blanks as tokens: one, or none if there are no blanks. -/
def blankTokens (gap : List Char) (pos : Nat) : List Token :=
  if gap.isEmpty then [] else [.plain .whitespace (String.ofList gap) pos]

/-- The tokens of pieces: those of their blanks, and their own tokens with the texts as written. Of
the last token, if it is open, and of the blanks after it becomes one token. -/
inductive Relexed (lexicon : Lexicon) : List Piece → List Char → List Token → Prop
  | nil (tail : List Char) (pos : Nat) : Relexed lexicon [] tail (blankTokens tail pos)
  | cons {p : Piece} {ps : List Piece} {tail : List Char} {ts : List Token} (pos pos' : Nat)
      (same : isLiteral p.token.kind = true → p.text = p.token.text.toList)
      (rest : Relexed lexicon ps tail ts) :
      Relexed lexicon (p :: ps) tail
        (blankTokens p.gap pos ++ ⟨p.token.kind, String.ofList p.text, pos', p.token.key⟩ :: ts)
  | last {p : Piece} {tail : List Char} (pos pos' : Nat) (key : Option PlaceholderKey)
      (kind : canBeOpen p.token.kind = true)
      (isOpen : p.token.kind ≠ .blockComment → Open lexicon p.token.text.toList)
      (hkey : p.token.kind = .blockComment → key = p.token.key) :
      Relexed lexicon [p] tail
        (blankTokens p.gap pos ++ [⟨p.token.kind, String.ofList (p.text ++ tail), pos', key⟩])

theorem reads_gap {gap rest : List Char} (hgap : IsGap gap) (hrest : rest.head?.any isBlank = false)
    (lexicon : Lexicon) (memory : Memory) :
    Reads lexicon memory (gap ++ rest) (.plain .whitespace gap.length) := by
  rw [← hgap.blanks_append hrest]
  refine .blanks ?_
  obtain ⟨g, gap, rfl⟩ := List.exists_cons_of_ne_nil hgap.1
  simp [blanks?, hgap.2 g (by simp)]

/-- Blanks are read first. -/
theorem tokensFrom_gap (dialect : Dialect) {gap : List Char} (rest : List Char)
    (hgap : ∀ c ∈ gap, isBlank c = true)
    (hrest : rest.head?.any isBlank = false) (memory : Memory) (pos : Nat) :
    ∃ pos', tokensFrom dialect.lexicon memory pos (gap ++ rest) =
      blankTokens gap pos ++ tokensFrom dialect.lexicon memory pos' rest := by
  cases gap with
  | nil => exact ⟨pos, rfl⟩
  | cons g gap =>
    have hreads := reads_gap ⟨by simp, hgap⟩ hrest dialect.lexicon memory
    refine ⟨pos + byteLength (g :: gap), ?_⟩
    rw [tokensFrom_cons dialect memory pos (by simp) hreads,
      Memory.Alike.after_whitespace memory rfl, Lexeme.plain, List.drop_left' rfl]
    simp [Lexeme.token, blankTokens, Token.plain]

/-- Blanks that come last. -/
theorem relexed_tail {before : Option Token} (h : Spelt dialect case before [] tail)
    (memory : Memory) (pos : Nat) :
    Relexed dialect.lexicon [] tail (tokensFrom dialect.lexicon memory pos (spell [] tail)) := by
  cases h with
  | nil blank =>
    obtain ⟨_, h⟩ := tokensFrom_gap dialect [] blank rfl memory pos
    rw [List.append_nil, tokensFrom_nil, List.append_nil] at h
    rw [spell, h]
    exact .nil tail pos

/-- A token that is not the last resembles its writing. -/
theorem Written.resembles (regular : token.Regular dialect) (hs : token.kind.isSignificant = true)
    (written : Written case false token x) (pos : Nat) (key : Option PlaceholderKey) :
    Resembles token ⟨token.kind, String.ofList x, pos, key⟩ := by
  cases written with
  | lineComment h => rw [h] at hs; cases hs
  | blockComment h => rw [h] at hs; cases hs
  | keyword h =>
    have hx := respaced_keyword regular.toSound h case
    have hkey := hx.phraseKey_eq
    have hhead := hx.head.2
    rw [String.ofList_toList] at hkey
    refine ⟨rfl, hkey, ?_, fun op => ?_⟩
    · rw [Bool.eq_false_iff.mpr fun hb => Bool.eq_false_iff.mp (isKeyword_of_isBracket hb).1 h]
      symm
      rw [Bool.eq_false_iff]
      intro hb
      simp only [Token.isBracket, String.ofList_toList, Bool.and_eq_true, Bool.or_eq_true,
        beq_iff_eq] at hb
      rcases hb.2 with ((hb | hb) | hb) | hb <;> rw [hb] at hhead <;> exact absurd hhead (by decide)
    · have hop : token.kind ≠ .operator :=
        fun ho => Bool.eq_false_iff.mp (isKeyword_of_operator ho).1 h
      simp only [Token.isOperator, beq_eq_false_iff_ne.mpr hop, Bool.false_and]
  | same => exact .of_text rfl (by rw [String.ofList_toList])
  | trimmed h => cases h

/-- A token that was read, with what it is written as and what comes after it in both texts. -/
theorem Reads.respelt {memory : Memory} {pos : Nat} {text : List Char} {qs : List Piece}
    (hne : text ≠ []) (h : Reads dialect.lexicon memory text found) (hw : found.kind ≠ .whitespace)
    (htoken : token = found.token text pos)
    (hqs : qs.map (·.token) = (tokensFrom dialect.lexicon
      (memory.after (found.token text pos)) (pos + byteLength (text.take found.length))
      (text.drop found.length)).filter (·.kind != .whitespace))
    (regular : token.Regular dialect) (written : Written case qs.isEmpty token x)
    (rest : Spelt dialect case (some token) qs tail) :
    Respelt dialect case found token (text.take found.length) (text.drop found.length) x qs tail := by
  have hkind : token.kind = found.kind := by rw [htoken]; rfl
  have htext : token.text.toList = text.take found.length := by
    rw [htoken, Lexeme.token_text, String.toList_ofList]
  obtain ⟨c, cs, -, -, hc, -⟩ := written.head regular (hkind ▸ hw)
  exact
    { length := by rw [List.length_take, min_eq_left (h.length_le hne)]
      nonempty := by rw [← htext, hc]; simp
      kind := hkind
      text := htext
      regular := regular
      written := written
      rest := rest
      facing := Spelt.facing dialect case _ _ _ (some token) qs tail [] (by simp) hqs rest
      last := fun hr => by rw [hr, tokensFrom_nil] at hqs; simpa using hqs }

/-- One token with the blanks before it, and then the rest. -/
theorem relexed_cut {memory : Memory} {pos : Nat} {text : List Char} {p : Piece} {qs : List Piece}
    (hm : memory.Alike m') (hne : text ≠ []) (h : Reads dialect.lexicon memory text found)
    (hw : found.kind ≠ .whitespace) (htoken : p.token = found.token text pos)
    (hqs : qs.map (·.token) = (tokensFrom dialect.lexicon
      (memory.after (found.token text pos)) (pos + byteLength (text.take found.length))
      (text.drop found.length)).filter (·.kind != .whitespace))
    (regular : p.token.Regular dialect) (hgap : ∀ c ∈ p.gap, isBlank c = true)
    (written : Written case qs.isEmpty p.token p.text)
    (rest : Spelt dialect case (some p.token) qs tail)
    (ih : ∀ m' pos', (memory.after (found.token text pos)).Alike m' →
      Relexed dialect.lexicon qs tail (tokensFrom dialect.lexicon m' pos' (spell qs tail)))
    (pos' : Nat) :
    Relexed dialect.lexicon (p :: qs) tail
      (tokensFrom dialect.lexicon m' pos' (spell (p :: qs) tail)) := by
  have hkind : p.token.kind = found.kind := by rw [htoken]; rfl
  have htext : p.token.text.toList = text.take found.length := by
    rw [htoken, Lexeme.token_text, String.toList_ofList]
  have hspelt := h.respelt hne hw htoken hqs regular written rest
  obtain ⟨c, cs, d, ds, -, hb, hx, hcd⟩ := written.head regular (hkind ▸ hw)
  have hd : isBlank d = false := by
    rcases hcd with rfl | ⟨_, _, hd⟩
    · exact hb
    · exact not_isBlank_of_isAlpha hd
  have hreads := h
  rw [← List.take_append_drop found.length text] at hreads
  have hback := hreads.respell hm hw hspelt
  obtain ⟨pos'', hgapTokens⟩ := tokensFrom_gap dialect (p.text ++ spell qs tail) hgap
    (by rw [hx]; exact hd) m' pos'
  rw [spell, hgapTokens]
  rcases hback with ⟨hback, hsame⟩ | ⟨rfl, hopen, hmore, key, hkey, hback⟩
  · have htoken' : (⟨found.kind, p.text.length, found.key⟩ : Lexeme).token
        (p.text ++ spell qs tail) pos'' =
        ⟨p.token.kind, String.ofList p.text, pos'', p.token.key⟩ := by
      rw [htoken, Lexeme.token, List.take_left' rfl]
      rfl
    rw [tokensFrom_cons dialect m' pos'' (by rw [hx]; simp) hback, htoken', List.drop_left' rfl]
    refine .cons _ _ (fun hlit => (hsame (hkind ▸ hlit)).trans htext.symm) ?_
    cases qs with
    | nil => exact relexed_tail rest _ _
    | cons q qs =>
      refine ih _ _ ?_
      rw [← htoken]
      refine hm.after rfl (fun hs => Written.resembles regular hs written _ _) fun hi => ?_
      have := eq_text_of_standsAlone (by rw [hi]; rfl) (by rw [hi]; exact ⟨by decide, by decide⟩) written
      rw [this, String.ofList_toList]
  · have htoken' : (⟨found.kind, (p.text ++ tail).length, key⟩ : Lexeme).token
        (p.text ++ tail) pos'' =
        ⟨p.token.kind, String.ofList (p.text ++ tail), pos'', key⟩ := by
      rw [hkind, Lexeme.token, List.take_length]
    rw [spell, tokensFrom_cons dialect m' pos'' (by rw [hx]; simp) hback, htoken', List.drop_length,
      tokensFrom_nil]
    rw [← hkind] at hopen hmore hkey
    refine .last _ _ _ hopen (fun hb => ?_) fun hb => ?_
    · rw [htext]
      exact hmore hb
    · rw [hkey hb, htoken]
      rfl

/-- What is spelt out from the tokens of a text is cut into those tokens again. -/
theorem relexed (dialect : Dialect) (case : KeywordCase) (memory : Memory) (pos : Nat)
    (text : List Char) :
    ∀ (m' : Memory) (pos' : Nat) (before : Option Token) (ps : List Piece) (tail : List Char),
      memory.Alike m' →
      ps.map (·.token) =
        (tokensFrom dialect.lexicon memory pos text).filter (·.kind != .whitespace) →
      Spelt dialect case before ps tail →
      Relexed dialect.lexicon ps tail (tokensFrom dialect.lexicon m' pos' (spell ps tail)) := by
  induction memory, pos, text using cut_induction dialect with
  | nil memory pos =>
    intro m' pos' before ps tail hm hps hsp
    obtain rfl : ps = [] := by simpa [tokensFrom_nil] using hps
    exact relexed_tail hsp m' pos'
  | cut memory pos text found hne h ih =>
    intro m' pos' before ps tail hm hps hsp
    rw [tokensFrom_cons dialect memory pos hne h] at hps
    by_cases hw : found.kind = .whitespace
    · rw [List.filter_cons_of_neg (by simpa using hw)] at hps
      rw [Memory.Alike.after_whitespace memory (by simpa using hw)] at hps ih
      exact ih m' pos' before ps tail hm hps hsp
    · rw [List.filter_cons_of_pos (by simpa using hw)] at hps
      cases hsp with
      | nil => simp at hps
      | @cons _ p qs _ regular kind joins written rest =>
        rw [List.map_cons, List.cons.injEq] at hps
        obtain ⟨htoken, hqs⟩ := hps
        exact relexed_cut hm hne h hw htoken hqs regular joins.blank written rest
          (fun m' pos' hm => ih m' pos' (some p.token) qs tail hm hqs rest) pos'

end SqlFormat.Lexer

import Mathlib
import SqlFormat.Proofs.Text.Reflow
import SqlFormat.Proofs.Token.Delimiter
import SqlFormat.Proofs.Token.Keyword
import SqlFormat.Proofs.Token.Literal
import SqlFormat.Proofs.Token.Number
import SqlFormat.Proofs.Token.Operator

/-!
# Reading a token again

A token read before some text is read again, as the same token, before another text, as long as that
one does not go on with it. For every rule of the lexer there is one lemma that says what has to be
asked of the text that follows. A literal or a comment that nothing closes is the last token of its
text; it may lose white space at its end, and get other.
-/

namespace SqlFormat.Lexer

open Text

variable {dialect : Dialect} {m m' : Memory} {t x r r' w : List Char}

/-! ## White space at the end -/

/-- A text without white space at the head of another is there without the white space at its end,
too. -/
theorem prefix_of_prefix_append {p : List Char} (hp : ∀ c ∈ p, isWhite c = false)
    (hw : AllWhite w) (h : p <+: x ++ w) : p <+: x := by
  by_cases hle : p.length ≤ x.length
  · exact List.prefix_of_prefix_length_le h (List.prefix_append x w) hle
  · obtain ⟨q, rfl⟩ := List.prefix_of_prefix_length_le (List.prefix_append x w) h (by omega)
    obtain ⟨rest, hrest⟩ := h
    rw [List.append_assoc, List.append_cancel_left_eq] at hrest
    cases q with
    | nil => simp
    | cons c q =>
      have hwhite := hw c (by rw [← hrest]; simp)
      rw [hp c (by simp)] at hwhite
      cases hwhite

theorem not_isWhite_of_isKeywordChar {c : Char} (h : isKeywordChar c = true) :
    isWhite c = false :=
  ascii_induction (p := fun c => isKeywordChar c = true → isWhite c = false) (by decide)
    (isKeywordChar_lt h) h

/-! ## Comments -/

theorem isPrefix_append_of_lineComment {marker : List Char}
    (hmarker : ∀ c ∈ marker, (c != '\n') = true) (hp : marker <+: t ++ r)
    (hlen : Scan.lineComment (t ++ r) = t.length) : marker <+: t := by
  refine List.prefix_of_prefix_length_le hp (List.prefix_append t r) ?_
  obtain ⟨rest, hrest⟩ := hp
  rw [← hlen, Scan.lineComment, ← hrest]
  have : marker <+: (marker ++ rest).takeWhile (· != '\n') := by
    rw [List.takeWhile_append_of_pos hmarker]
    exact List.prefix_append _ _
  exact this.length_le

/-- A line comment without the white space at its end, before the end of its line. -/
theorem reread_lineComment (hstart : dialect.lexicon.startsLineComment (t ++ r) = true)
    (hlen : Scan.lineComment (t ++ r) = t.length) (hr : r' = [] ∨ r'.head? = some '\n') :
    Reads dialect.lexicon m' (dropWhileEnd isWhite t ++ r')
      ⟨.lineComment, (dropWhileEnd isWhite t).length, none⟩ := by
  obtain ⟨w, ht, hw⟩ := dropWhileEnd_spec isWhite t
  have hstart' : dialect.lexicon.startsLineComment (dropWhileEnd isWhite t ++ r') = true := by
    have hmarker : ∀ marker, (∀ c ∈ marker, isWhite c = false) → (∀ c ∈ marker, (c != '\n') = true) →
        marker <+: t ++ r → marker <+: dropWhileEnd isWhite t ++ r' := by
      intro marker hwhite hline hp
      have hpre := isPrefix_append_of_lineComment hline hp hlen
      rw [ht] at hpre
      exact (prefix_of_prefix_append hwhite hw hpre).trans (List.prefix_append _ _)
    rw [startsLineComment_iff] at hstart ⊢
    exact hstart.imp
      (fun h => ⟨h.1, hmarker _ (forall_mem_of_all (by decide)) (forall_mem_of_all (by decide)) h.2⟩)
      fun h => ⟨h.1, hmarker _ (forall_mem_of_all (by decide)) (forall_mem_of_all (by decide)) h.2⟩
  have hlines : ∀ c ∈ t, (c != '\n') = true := by
    rw [Scan.lineComment] at hlen
    exact (Scan.takeWhile_append_eq hlen).1
  have hlen' : Scan.lineComment (dropWhileEnd isWhite t ++ r') =
      (dropWhileEnd isWhite t).length := by
    have hstop : r'.head?.any (· != '\n') = false := by
      rcases hr with rfl | hr
      · rfl
      · simp [hr]
    rw [Scan.lineComment, Scan.takeWhile_append_stop _ hstop, List.takeWhile_eq_self_iff.mpr]
    intro c hc
    exact hlines c (by rw [ht]; exact List.mem_append_left _ hc)
  have hblank : blanks? (dropWhileEnd isWhite t ++ r') = none := by
    rw [blanks?_eq_none]
    rcases (startsLineComment_iff dialect _).mp hstart' with ⟨_, rest, h⟩ | ⟨_, rest, h⟩ <;>
      (rw [← h]; simp [isBlank])
  refine .comment hblank ?_
  rw [comment?, if_pos hstart', hlen']
  rfl

theorem Reflow.cons_inv {c : Char} (hc : isWhite c = false) {x : List Char}
    (h : Reflow (c :: t) x) : ∃ x', x = c :: x' ∧ Reflow t x' := by
  have hwhite : ∀ {g u : List Char}, g ≠ [] → AllWhite g → c :: t = g ++ u → False := by
    intro g u hne hg heq
    obtain ⟨d, g, rfl⟩ := List.exists_cons_of_ne_nil hne
    rw [(List.cons.inj heq).1, hg d (by simp)] at hc
    cases hc
  generalize ht : c :: t = s at h
  cases h with
  | nil => cases ht
  | char _ rest =>
    cases ht
    exact ⟨_, rfl, rest⟩
  | gap hne hg _ _ _ => exact (hwhite hne hg ht).elim
  | stop hne hg _ => exact (hwhite hne hg (ht.trans (List.append_nil _).symm)).elim

theorem holdsClose_append (a : List Char) (hw : AllWhite w) :
    holdsClose (a ++ w) = holdsClose a := by
  induction a with
  | nil =>
    have := holdsClose_white hw []
    rwa [List.append_nil] at this
  | cons c a ih =>
    have hat : atClose c (a ++ w) = atClose c a := by
      cases a with
      | nil =>
        cases w with
        | nil => rfl
        | cons d w =>
          have : d ≠ '/' := by
            rintro rfl
            exact absurd (hw '/' (by simp)) (by decide)
          simp [atClose, this]
      | cons => rfl
    rw [List.cons_append, holdsClose, holdsClose, hat, ih]

theorem startsBlockComment_cons (dialect : Dialect) (b : List Char) :
    dialect.lexicon.startsLineComment ('/' :: '*' :: b) = false ∧
      Scan.startsBlockComment ('/' :: '*' :: b) = true ∧ blanks? ('/' :: '*' :: b) = none := by
  refine ⟨?_, rfl, blanks?_eq_none.mpr (by simp [isBlank])⟩
  rw [Bool.eq_false_iff, Ne, startsLineComment_iff]
  rintro (⟨_, rest, h⟩ | ⟨_, rest, h⟩) <;> exact absurd (List.cons.inj h).1 (by decide)

/-- A block comment with other white space: closed before any text, or open before white space, which
it takes in. -/
theorem reread_blockComment (dialect : Dialect) (m' : Memory)
    (hstart : Scan.startsBlockComment (t ++ r) = true)
    (hlen : Scan.blockComment (t ++ r) = t.length) (hx : Reflow t x) :
    (∀ r', Reads dialect.lexicon m' (x ++ r') ⟨.blockComment, x.length, none⟩) ∨
      (r = [] ∧ ∀ w, AllWhite w →
        Reads dialect.lexicon m' (x ++ w) ⟨.blockComment, (x ++ w).length, none⟩) := by
  obtain ⟨b, rfl⟩ : ∃ b, t = '/' :: '*' :: b := by
    rw [Scan.blockComment] at hlen
    have hpre := List.isPrefixOf_iff_prefix.mp hstart
    obtain ⟨b, hb⟩ := List.prefix_of_prefix_length_le hpre (List.prefix_append t r)
      (by simp only [List.length_cons, List.length_nil]; omega)
    exact ⟨b, hb.symm⟩
  obtain ⟨x₁, rfl, hx₁⟩ := Reflow.cons_inv (by decide) hx
  obtain ⟨x₂, rfl, hx₂⟩ := Reflow.cons_inv (by decide) hx₁
  have hreads : ∀ s n, Scan.through ['*', '/'] s = n →
      Reads dialect.lexicon m' ('/' :: '*' :: s) ⟨.blockComment, 2 + n, none⟩ := by
    intro s n hn
    obtain ⟨hline, hblock, hblank⟩ := startsBlockComment_cons dialect s
    refine .comment hblank ?_
    rw [comment?, hline, if_neg Bool.false_ne_true, if_pos hblock, Scan.blockComment, ← hn]
    rfl
  have hthrough : Scan.through ['*', '/'] (b ++ r) = b.length := by
    simp only [Scan.blockComment, List.cons_append, List.drop_succ_cons, List.drop_zero,
      List.length_cons] at hlen
    omega
  rcases closes_of_through hthrough with hclose | ⟨hopen, rfl⟩
  · refine .inl fun r' => ?_
    have := hreads _ _ (through_closes (hx₂.closes_eq hclose) r')
    rwa [Nat.add_comm] at this
  · refine .inr ⟨rfl, fun w hw => ?_⟩
    rw [hx₂.holdsClose_eq] at hopen
    have := hreads (x₂ ++ w) _
      (through_not_holdsClose (by rw [holdsClose_append x₂ hw, hopen]))
    rwa [Nat.add_comm] at this

/-! ## Literals -/

theorem IsWord.tidy {w : List Char} (h : IsWord w) : Tidy w := by
  refine tidy_of_forall ?_ h.not_blank
  obtain ⟨c, cs, rfl, -⟩ := h
  exact List.cons_ne_nil c cs

theorem tidy_of_word {text : List Char} (h : 0 < Scan.word text) :
    Tidy (text.take (Scan.word text)) :=
  (isWord_take h).tidy

/-- The body of a literal, which a scanner found before a text: it is closed and ends there before
any text that is asked for, or it is open. Then it takes in whatever follows, and white space at its
end may be replaced. -/
def Body (scan : List Char → Nat) (stop : List Char → Prop) (b r : List Char) : Prop :=
  (Tidy b ∧ ∀ r', stop r' → scan (b ++ r') = b.length) ∨
    (r = [] ∧ (∀ e, scan (b ++ [e]) = b.length + 1) ∧
      ∀ b₀ w w', b = b₀ ++ w → AllWhite w → AllWhite w' → scan (b₀ ++ w') = (b₀ ++ w').length)

theorem body_stringBody (style : StringStyle) (hwhite : isWhite style.closing = false)
    {b : List Char} (h : Scan.stringBody style (b ++ r) = b.length) :
    Body (Scan.stringBody style) (fun r' => r'.head? ≠ some style.closing) b r := by
  have hne : ∀ {w : List Char}, AllWhite w → ∀ c ∈ w, c ≠ style.closing := by
    rintro w hw c hc rfl
    rw [hw _ hc] at hwhite
    cases hwhite
  cases hc : Scan.unclosed style b with
  | false =>
    refine .inl ⟨⟨style.closing, Scan.getLast?_of_closed h hc, ?_⟩, fun r' hr' =>
      Scan.stringBody_closed h hc hr'⟩
    exact not_isBlank_of_not_isWhite hwhite
  | true =>
    refine .inr ⟨Scan.eq_nil_of_unclosed h hc, Scan.stringBody_unclosed_concat hc, ?_⟩
    rintro b₀ w w' rfl hw hw'
    exact Scan.stringBody_unclosed (Scan.unclosed_append hc (hne hw) (hne hw'))

theorem body_through {p : List Char} (hp : p ≠ []) (hwhite : ∀ c ∈ p, isWhite c = false)
    {b : List Char} (h : Scan.through p (b ++ r) = b.length) :
    Body (Scan.through p) (fun _ => True) b r := by
  rcases Scan.through_closed hp h with ⟨hr, hopen⟩ | ⟨hsuffix, hclosed⟩
  · refine .inr ⟨hr, Scan.through_concat hp hopen, ?_⟩
    rintro b₀ w w' rfl _ hw'
    refine Scan.through_unclosed fun hinf => hopen ?_
    refine (Scan.infix_of_infix_append hp (fun c hc hcp => ?_) hinf).trans
      (List.prefix_append b₀ w).isInfix
    exact absurd (hwhite c hcp) (by simp [hw' c hc])
  · have htidy := tidy_of_forall hp fun c hc => not_isBlank_of_not_isWhite (hwhite c hc)
    exact .inl ⟨tidy_of_suffix htidy hsuffix, fun r' _ => hclosed r'⟩

/-- A literal that was read before a text is read again: it ends before any text that is asked for,
or it is open. -/
def Rereads (dialect : Dialect) (kind : TokenKind) (key : Option PlaceholderKey)
    (stop : List Char → Prop) (t r : List Char) : Prop :=
  (Tidy t ∧ ∀ m r', stop r' → Reads dialect.lexicon m (t ++ r') ⟨kind, t.length, key⟩) ∨
    (r = [] ∧ (∀ m e, ∃ key, Reads dialect.lexicon m (t ++ [e]) ⟨kind, t.length + 1, key⟩) ∧
      ∀ m x w w', t = x ++ w → AllWhite w → AllWhite w' →
        ∃ key, Reads dialect.lexicon m (x ++ w') ⟨kind, (x ++ w').length, key⟩)

/-- A literal is an opening without white space and a body. -/
theorem rereads_of_body {kind : TokenKind} (o : List Char) {b : List Char}
    (scan : List Char → Nat) {stop : List Char → Prop}
    (key : List Char → Option PlaceholderKey)
    (hreads : ∀ m s, Reads dialect.lexicon m (o ++ s)
      ⟨kind, o.length + scan s, key (s.take (scan s))⟩)
    (ho : ∀ c ∈ o, isWhite c = false) (hb : Body scan stop b r) :
    Rereads dialect kind (key b) stop (o ++ b) r := by
  rcases hb with ⟨htidy, hclosed⟩ | ⟨hr, hmore, hopen⟩
  · refine .inl ⟨htidy.append o, fun m r' hr' => ?_⟩
    have := hreads m (b ++ r')
    rw [hclosed r' hr', List.take_left' rfl, ← List.append_assoc] at this
    rwa [List.length_append]
  · refine .inr ⟨hr, fun m e => ?_, fun m x w w' ht hw hw' => ?_⟩
    · have := hreads m (b ++ [e])
      rw [hmore e, ← List.append_assoc, ← Nat.add_assoc] at this
      rw [List.length_append]
      exact ⟨_, this⟩
    · obtain ⟨b₀, rfl⟩ := prefix_of_prefix_append ho hw ⟨b, ht⟩
      rw [List.append_assoc, List.append_cancel_left_eq] at ht
      have := hreads m (b₀ ++ w')
      rw [hopen b₀ w w' ht hw hw', ← List.append_assoc] at this
      rw [List.append_assoc, List.length_append]
      exact ⟨_, by rwa [← List.append_assoc]⟩

theorem closing_not_white {style : StringStyle} (h : style ∈ dialect.lexicon.strings) :
    isWhite style.closing = false := by
  rcases dialect.delimits.closing style h with h | ⟨h, -⟩
  · simp only [List.mem_cons, List.not_mem_nil, or_false] at h
    rcases h with h | h | h <;> rw [h] <;> decide
  · rw [h]
    decide

theorem rereads_quoted {c : Char} {b : List Char} {style : StringStyle}
    (hstyle : dialect.lexicon.stringStyle? c = some style)
    (h : Scan.string style (c :: b ++ r) = (c :: b).length) :
    Rereads dialect .string none (fun r' => r'.head? ≠ some style.closing) (c :: b) r := by
  obtain ⟨hmem, hopening⟩ := stringStyle?_eq_some hstyle
  have hc : c ∈ ['\x27', '\x22', '\x60', '['] := hopening ▸ dialect.delimits.opening style hmem
  have hhead : (isBlank c = false ∧ isWhite c = false) ∧ c ∉ ['-', '#', '/'] ∧ c ≠ '$' := by
    simp only [List.mem_cons, List.not_mem_nil, or_false] at hc
    rcases hc with rfl | rfl | rfl | rfl <;> decide
  have hlen : Scan.stringBody style (b ++ r) = b.length := by
    simp only [Scan.string, List.cons_append, List.drop_succ_cons, List.drop_zero,
      List.length_cons] at h
    omega
  refine rereads_of_body [c] (Scan.stringBody style) (fun _ => none) ?_
    (by simpa using hhead.1.2) (body_stringBody style (closing_not_white hmem) hlen)
  intro m s
  refine .quoted (blanks?_eq_none.mpr hhead.1.1) (comment?_none_of_head hhead.2.1)
    (dollarString?_none_of_head hhead.2.2) ?_
  simp [quotedString?, hstyle, Scan.string, Lexeme.plain]

theorem rereads_prefixed {letter : Char} {backslash : Bool} {b : List Char}
    (hl : dialect.lexicon.prefixedStrings.lookup letter = some backslash)
    (h : 1 + Scan.string ⟨'\x27', '\x27', backslash⟩ ('\x27' :: b ++ r) =
      (letter :: '\x27' :: b).length) :
    Rereads dialect .string none (fun r' => r'.head? ≠ some '\x27') (letter :: '\x27' :: b) r := by
  obtain ⟨l₁, l₂, hmem, _⟩ := List.lookup_eq_some_iff.mp hl
  have halpha := dialect.delimits.letters (letter, backslash) (by rw [hmem]; simp)
  have hstart : Scan.isWordStart letter = true := by simp [Scan.isWordStart, halpha]
  have hbare : ∀ s, blanks? (letter :: s) = none ∧
      comment? dialect.lexicon (letter :: s) = none ∧
      dollarString? dialect.lexicon (letter :: s) = none ∧
      quotedString? dialect.lexicon (letter :: s) = none := by
    intro s
    have : Bare dialect.lexicon [letter] := Bare.of_word hstart (by simp)
    have hblank : [letter].head?.any isBlank = false := blanks?_eq_none.mp this.blanks
    exact ⟨blanks?_eq_none.mpr hblank,
      comment?_none_of_head (isWordStart_not_mem hstart (by decide)),
      dollarString?_none_of_head (fun h => by rw [h] at hstart; exact absurd hstart (by decide)),
      quotedString?_cons.mpr (quotedString?_cons.mp this.quoted)⟩
  have hlen : Scan.stringBody ⟨'\x27', '\x27', backslash⟩ (b ++ r) = b.length := by
    simp only [Scan.string, List.cons_append, List.drop_succ_cons, List.drop_zero,
      List.length_cons] at h
    omega
  refine rereads_of_body [letter, '\x27'] (Scan.stringBody ⟨'\x27', '\x27', backslash⟩)
    (fun _ => none) ?_ ?_ (body_stringBody ⟨'\x27', '\x27', backslash⟩ rfl hlen)
  · intro m s
    obtain ⟨hb, hc, hd, hq⟩ := hbare ('\x27' :: s)
    refine .prefixed hb hc hd hq ?_
    have : 1 + Scan.string ⟨'\x27', '\x27', backslash⟩ ('\x27' :: s) =
        2 + Scan.stringBody ⟨'\x27', '\x27', backslash⟩ s := by
      simp only [Scan.string, List.drop_succ_cons, List.drop_zero]
      omega
    simp [prefixedString?, hl, Lexeme.plain, this]
  · intro c hc
    simp only [List.mem_cons, List.not_mem_nil, or_false] at hc
    rcases hc with rfl | rfl
    · exact not_isWhite_of_isKeywordChar (by simp [isKeywordChar, Char.isAlphanum, halpha])
    · decide

theorem dollarTag?_append {tag : List Char} (h : Scan.dollarTag? t = some tag) (rest : List Char) :
    Scan.dollarTag? (tag ++ rest) = some tag ∧ tag.head? = some '$' ∧
      ∀ c ∈ tag, isWhite c = false := by
  unfold Scan.dollarTag? at h
  split at h
  · next cs =>
    simp only at h
    split at h
    · next hc =>
      cases h
      simp only [Bool.and_eq_true] at hc
      set name := cs.takeWhile fun c => c.isAlphanum || c == '_' with hname
      have hall : ∀ c ∈ name, (c.isAlphanum || c == '_') = true := fun c hc =>
        List.mem_takeWhile_imp (p := fun c => c.isAlphanum || c == '_') hc
      have htake : ('$' :: rest).head?.any (fun c : Char => c.isAlphanum || c == '_') = false := by
        simp [Char.isAlphanum, Char.isAlpha, Char.isDigit]
      refine ⟨?_, by simp, ?_⟩
      · simp only [List.cons_append, List.append_assoc, List.nil_append, Scan.dollarTag?]
        rw [Scan.takeWhile_append_stop name htake, List.takeWhile_eq_self_iff.mpr hall]
        simpa using hc.2
      · intro c hc
        simp only [List.cons_append, List.mem_cons, List.mem_append, List.not_mem_nil,
          or_false] at hc
        rcases hc with rfl | hc | rfl
        · decide
        · exact not_isWhite_of_isKeywordChar (hall c hc)
        · decide
    · cases h
  · cases h

theorem rereads_dollar (hq : dialect.lexicon.dollarQuotes = true)
    (h : Scan.dollarString? (t ++ r) = some t.length) :
    Rereads dialect .string none (fun _ => True) t r := by
  simp only [Scan.dollarString?, Option.map_eq_some_iff] at h
  obtain ⟨tag, htag, hlen⟩ := h
  obtain ⟨b, rfl⟩ : tag <+: t :=
    List.prefix_of_prefix_length_le (Scan.isPrefix_of_dollarTag? htag) (List.prefix_append t r) (by omega)
  obtain ⟨-, hhead, hwhite⟩ := dollarTag?_append htag []
  have hne : tag ≠ [] := by rintro rfl; cases hhead
  have hthrough : Scan.through tag (b ++ r) = b.length := by
    rw [List.append_assoc, List.drop_left' rfl, List.length_append] at hlen
    omega
  refine rereads_of_body tag (Scan.through tag) (fun _ => none) ?_ hwhite
    (body_through hne hwhite hthrough)
  intro m s
  obtain ⟨hs, -, -⟩ := dollarTag?_append htag s
  obtain ⟨cs, rfl⟩ : ∃ cs, tag = '$' :: cs := by
    obtain ⟨c, cs, rfl⟩ := List.exists_cons_of_ne_nil hne
    exact ⟨cs, by rw [Option.some.inj hhead]⟩
  refine .dollar (blanks?_eq_none.mpr (by simp [isBlank])) (comment?_none_of_head (by decide)) ?_
  rw [dollarString?, if_pos hq, Scan.dollarString?, hs, Option.map_some, Option.map_some,
    List.drop_left' rfl]
  rfl

/-! ## Placeholders and variables -/

/-- A sigil before a name. -/
theorem reads_named (m : Memory) {c : Char} {s : List Char} (n : Nat) (name : List Char)
    (hc : c ∈ dialect.lexicon.placeholders.named)
    (hi : c ∈ dialect.lexicon.placeholders.indexed → s.head?.any Char.isDigit = false)
    (hn : placeholderName? s = some (n, name)) :
    Reads dialect.lexicon m (c :: s)
      ⟨.namedPlaceholder, 1 + n, some (.name (String.ofList name))⟩ := by
  have hmem := dialect.delimits.named c hc
  have hhead : (isBlank c = false ∧ c.isAlpha = false ∧ Scan.isWordStart c = false) ∧
      c ∉ ['-', '#', '/'] ∧ c ∉ ['\x27', '\x22', '\x60', '['] ∧ c ≠ '?' := by
    simp only [List.mem_cons, List.not_mem_nil, or_false] at hmem
    rcases hmem with rfl | rfl | rfl <;> decide
  obtain ⟨⟨hblank, halpha, hword⟩, hcom, hq, hqm⟩ := hhead
  have hdollar : dollarString? dialect.lexicon (c :: s) = none := by
    by_cases hd : c = '$'
    · subst hd
      have : ¬dialect.lexicon.dollarQuotes = true := fun h => dialect.delimits.dollar h hc
      rw [dollarString?, if_neg this]
    · exact dollarString?_none_of_head hd
  have hindexed : indexedPlaceholder? dialect.lexicon m (c :: s) = none := by
    by_cases hci : c ∈ dialect.lexicon.placeholders.indexed
    · have hds : s.takeWhile Char.isDigit = [] := by
        have := Scan.takeWhile_append_stop [] (hi hci)
        simpa using this
      simp [indexedPlaceholder?, hds, hqm]
    · exact indexedPlaceholder?_none_of_head hci
  refine .named ⟨blanks?_eq_none.mpr hblank, comment?_none_of_head hcom, hdollar,
    quotedString?_cons.mpr (stringStyle?_none dialect.delimits hq),
    prefixedString?_none_of_head dialect.delimits halpha⟩ (word?_eq_none.mpr hword) hindexed ?_
  rw [namedPlaceholder?, if_pos (by simpa using hc), hn, Option.map_some]

section Name

variable {c q : Char} {b : List Char} (hc : c ∈ dialect.lexicon.placeholders.named)

include hc

theorem named_not_white : isWhite c = false := by
  have hmem := dialect.delimits.named c hc
  simp only [List.mem_cons, List.not_mem_nil, or_false] at hmem
  rcases hmem with rfl | rfl | rfl <;> decide

/-- A name in quotes. -/
theorem rereads_named_quoted (hq : (q == '\x22' || q == '\x60' || q == '\x27') = true)
    (hlen : Scan.string (.quoted q) (q :: (b ++ r)) = (q :: b).length) :
    Rereads dialect .namedPlaceholder (some (.name (String.ofList (unquote (q :: b)))))
      (fun r' => r'.head? ≠ some q) (c :: q :: b) r := by
  have hstring : ∀ s, Scan.string (.quoted q) (q :: s) = 1 + Scan.stringBody (.quoted q) s :=
    fun _ => rfl
  have hquote : isWhite q = false ∧ q.isDigit = false := by
    simp only [Bool.or_eq_true, beq_iff_eq] at hq
    rcases hq with (rfl | rfl) | rfl <;> decide
  have hbody : Scan.stringBody (.quoted q) (b ++ r) = b.length := by
    rw [hstring] at hlen
    simp only [List.length_cons] at hlen
    omega
  refine rereads_of_body [c, q] (Scan.stringBody (.quoted q))
    (fun s => some (.name (String.ofList (unquote (q :: s))))) ?_
    (by simp [named_not_white hc, hquote.1]) (body_stringBody (.quoted q) hquote.1 hbody)
  intro m s
  have := reads_named m (s := q :: s) (1 + Scan.stringBody (.quoted q) s)
    (unquote (q :: s.take (Scan.stringBody (.quoted q) s))) hc (fun _ => hquote.2)
    (by simp [placeholderName?, hq, hstring, Nat.add_comm 1])
  rwa [← Nat.add_assoc] at this

/-- A name in brackets. -/
theorem rereads_named_bracket
    (hlen : Scan.through [']'] ('[' :: (b ++ r)) = ('[' :: b).length) :
    Rereads dialect .namedPlaceholder (some (.name (String.ofList (unquote ('[' :: b)))))
      (fun _ => True) (c :: '[' :: b) r := by
  have hthrough : ∀ s, Scan.through [']'] ('[' :: s) = 1 + Scan.through [']'] s := by
    intro s
    simp [Scan.through]
  have hbody : Scan.through [']'] (b ++ r) = b.length := by
    rw [hthrough] at hlen
    simp only [List.length_cons] at hlen
    omega
  refine rereads_of_body [c, '['] (Scan.through [']'])
    (fun s => some (.name (String.ofList (unquote ('[' :: s))))) ?_
    (by simp only [List.mem_cons, List.not_mem_nil, or_false]
        rintro d (rfl | rfl)
        · exact named_not_white hc
        · decide)
    (body_through (p := [']']) (by simp) (forall_mem_of_all (by decide)) hbody)
  intro m s
  have := reads_named m (s := '[' :: s) (1 + Scan.through [']'] s)
    (unquote ('[' :: s.take (Scan.through [']'] s))) hc (fun _ => rfl)
    (by simp [placeholderName?, hthrough, Nat.add_comm 1])
  rwa [← Nat.add_assoc] at this

/-- A name that is a word. -/
theorem reread_named_word (hi : c ∈ dialect.lexicon.placeholders.indexed → q.isDigit = false)
    (hq : (q == '\x22' || q == '\x60' || q == '\x27') = false) (hb : (q == '[') = false)
    (hw : (Scan.isWordStart q || q.isDigit) = true) (hword : IsWord (q :: b))
    (hr : endsWord r' = true) :
    Reads dialect.lexicon m (c :: q :: b ++ r')
      ⟨.namedPlaceholder, (c :: q :: b).length, some (.name (String.ofList (q :: b)))⟩ := by
  have hlen := hword.word_append hr
  have := reads_named m (s := q :: (b ++ r')) (q :: b).length (q :: b) hc hi
    (by rw [List.cons_append] at hlen
        simp only [placeholderName?, hq, hb, hw, Bool.false_eq_true, if_false, if_true, hlen]
        simp)
  rwa [Nat.add_comm] at this

end Name

theorem placeholderName?_pos {cs name : List Char} {n : Nat}
    (h : placeholderName? cs = some (n, name)) : 0 < n := by
  unfold placeholderName? at h
  split at h
  · cases h
  · next c cs =>
    simp only at h
    split_ifs at h with h₁ h₂ h₃
    · cases h
      exact Scan.string_pos _ _
    · cases h
      obtain rfl := beq_iff_eq.mp h₂
      have : Scan.through [']'] ('[' :: cs) = 1 + Scan.through [']'] cs := by simp [Scan.through]
      omega
    · cases h
      refine Scan.word_pos ?_
      rw [Bool.or_eq_true] at h₃
      exact h₃.elim Scan.isWordChar_of_isWordStart Scan.isWordChar_of_isDigit

/-- A named placeholder. -/
theorem rereads_named {c : Char} {n : List Char} {name : List Char}
    (hc : c ∈ dialect.lexicon.placeholders.named)
    (hi : indexedPlaceholder? dialect.lexicon m (c :: n ++ r) = none)
    (hn : placeholderName? (n ++ r) = some (n.length, name)) :
    Rereads dialect .namedPlaceholder (some (.name (String.ofList name)))
      (fun r' => endsWord r' = true ∧ r'.head? ∉ [some '\x22', some '\x60', some '\x27'])
      (c :: n) r := by
  obtain ⟨q, b, rfl⟩ := List.exists_cons_of_length_pos (placeholderName?_pos hn)
  have hdigit : c ∈ dialect.lexicon.placeholders.indexed → q.isDigit = false := by
    intro hci
    rw [Bool.eq_false_iff]
    intro hd
    simp [indexedPlaceholder?, hci, hd] at hi
  simp only [List.cons_append, placeholderName?] at hn
  split at hn
  · next hq =>
    simp only [Option.some.injEq, Prod.mk.injEq] at hn
    obtain ⟨hlen, rfl⟩ := hn
    rw [hlen, ← List.cons_append, List.take_left' rfl]
    refine (rereads_named_quoted hc hq hlen).imp_left
      fun h => ⟨h.1, fun m r' hr' => h.2 m r' fun hclose => ?_⟩
    simp only [Bool.or_eq_true, beq_iff_eq] at hq
    rcases hq with (rfl | rfl) | rfl <;> simp [hclose] at hr'
  · next hq =>
    split at hn
    · next hb =>
      obtain rfl := beq_iff_eq.mp hb
      simp only [Option.some.injEq, Prod.mk.injEq] at hn
      obtain ⟨hlen, rfl⟩ := hn
      rw [hlen, ← List.cons_append, List.take_left' rfl]
      exact (rereads_named_bracket hc hlen).imp_left
        fun h => ⟨h.1, fun m r' _ => h.2 m r' trivial⟩
    · next hb =>
      split at hn
      · next hw =>
        simp only [Option.some.injEq, Prod.mk.injEq] at hn
        obtain ⟨hlen, rfl⟩ := hn
        obtain ⟨hword, -⟩ := isWord_of_word (w := q :: b) (r := r) (by simp) hlen
        rw [hlen, ← List.cons_append, List.take_left' rfl]
        exact .inl ⟨hword.tidy.append [c], fun m r' hr' => reread_named_word hc hdigit
          (by simpa using hq) (by simpa using hb) hw hword hr'.1⟩
      · cases hn

/-- A dollar sign before a digit opens no string. -/
theorem dollarString?_digit {lexicon : Lexicon} {s : List Char}
    (h : s.head?.any Char.isDigit = true) : dollarString? lexicon ('$' :: s) = none := by
  have htag : Scan.dollarTag? ('$' :: s) = none := by
    cases s with
    | nil => cases h
    | cons d s =>
      simp only [List.head?_cons, Option.any_some] at h
      simp [Scan.dollarTag?, Char.isAlphanum, h]
  simp [dollarString?, Scan.dollarString?, htag]

/-- An indexed placeholder before what is no digit. -/
theorem reread_indexed {found : Lexeme} (hpos : m.positional = m'.positional)
    (h : indexedPlaceholder? dialect.lexicon m (t ++ r) = some found)
    (hlen : found.length = t.length) (hne : t ≠ []) (hr : r'.head?.any Char.isDigit = false) :
    Reads dialect.lexicon m' (t ++ r') found := by
  obtain ⟨c, ds, rfl⟩ := List.exists_cons_of_ne_nil hne
  rw [List.cons_append] at h
  obtain ⟨_, _, heq, hc, hfound⟩ := indexedPlaceholder?_eq_some h
  obtain ⟨rfl, rfl⟩ := List.cons.inj heq
  have hhead : (isBlank c = false ∧ c.isAlpha = false ∧ Scan.isWordStart c = false) ∧
      c ∉ ['-', '#', '/'] ∧ c ∉ ['\x27', '\x22', '\x60', '['] := by
    have hmem := dialect.delimits.indexed c hc
    simp only [List.mem_cons, List.not_mem_nil, or_false] at hmem
    rcases hmem with rfl | rfl <;> decide
  obtain ⟨⟨hblank, halpha, hword⟩, hcom, hq⟩ := hhead
  -- What follows the sigil: its digits, or nothing if it is a bare question mark.
  have hdollar : dollarString? dialect.lexicon (c :: (ds ++ r')) = none ∧
      indexedPlaceholder? dialect.lexicon m' (c :: (ds ++ r')) = some found := by
    have hstop := Scan.takeWhile_append_stop ds hr
    rcases hfound with ⟨hdig, rfl⟩ | ⟨hnone, rfl, rfl⟩
    · have hds : (ds ++ r).takeWhile Char.isDigit = ds := by
        have hall := (Scan.takeWhile_append_eq (a := ds) (r := r) (p := Char.isDigit)
          (by simp only [List.length_cons] at hlen; omega)).1
        rw [Scan.takeWhile_append_le (by simp only [List.length_cons] at hlen; omega),
          List.takeWhile_eq_self_iff.mpr hall]
      rw [hds] at hdig ⊢
      have hself : ds.takeWhile Char.isDigit = ds := by
        rw [← Scan.takeWhile_append_le (r := r) (by rw [hds]), hds]
      obtain ⟨d, ds', rfl⟩ := List.exists_cons_of_ne_nil hdig
      have hd : d.isDigit = true := by
        by_contra hd
        simp [hd] at hself
      constructor
      · by_cases hcd : c = '$'
        · subst hcd
          exact dollarString?_digit hd
        · exact dollarString?_none_of_head hcd
      · rw [indexedPlaceholder?, if_pos (by simpa using hc), hstop, hself]
        simp
    · obtain rfl : ds = [] := by
        simp only [List.length_cons] at hlen
        exact List.length_eq_zero_iff.mp (by omega)
      rw [List.takeWhile_nil] at hstop
      refine ⟨dollarString?_none_of_head (by decide), ?_⟩
      rw [indexedPlaceholder?, if_pos (by simpa using hc), hstop]
      simp [hpos]
  exact .indexed ⟨blanks?_eq_none.mpr hblank, comment?_none_of_head hcom, hdollar.1,
    quotedString?_cons.mpr (stringStyle?_none dialect.delimits hq),
    prefixedString?_none_of_head dialect.delimits halpha⟩ (word?_eq_none.mpr hword) hdollar.2

/-- A session variable before what does not go on with a word. -/
theorem reread_sessionVariable (m' : Memory) {found : Lexeme}
    (h : sessionVariable? dialect.lexicon (t ++ r) = some found)
    (hlen : found.length = t.length) (hne : t ≠ []) (hr : endsWord r' = true) :
    Reads dialect.lexicon m' (t ++ r') found := by
  obtain ⟨c, cs, rfl⟩ := List.exists_cons_of_ne_nil hne
  rw [List.cons_append] at h
  obtain ⟨_, _, heq, hc, sigils, hsigils, hpos, rfl⟩ := sessionVariable?_eq_some h
  obtain ⟨rfl, rfl⟩ := List.cons.inj heq
  obtain ⟨rfl, hnamed⟩ := dialect.delimits.sigil c hc
  have hindexed : '@' ∉ dialect.lexicon.placeholders.indexed := fun hi =>
    absurd (dialect.delimits.indexed _ hi) (by decide)
  have hbare : Bare dialect.lexicon ('@' :: (cs ++ r')) :=
    .of_head (by decide) (by decide) (by decide) (by decide)
      (prefixedString?_none_of_head dialect.delimits (by decide))
  refine .sessionVariable hbare (word?_eq_none.mpr rfl)
    (indexedPlaceholder?_none_of_head hindexed) (namedPlaceholder?_none_of_head hnamed) ?_
  simp only [Lexeme.plain, List.length_cons] at hlen
  -- The name lies within the token, so its sigils are counted alike.
  have hcs : cs ≠ [] := by
    rintro rfl
    simp only [List.length_nil] at hlen
    split at hsigils <;> omega
  have hsame : (if (cs ++ r').head? == some '@' then 2 else 1) = sigils := by
    obtain ⟨d, ds, rfl⟩ := List.exists_cons_of_ne_nil hcs
    exact hsigils.symm
  have hname : ∃ name, ('@' :: cs) = ('@' :: cs).take sigils ++ name ∧ sigils ≤ cs.length + 1 := by
    refine ⟨('@' :: cs).drop sigils, (List.take_append_drop _ _).symm, ?_⟩
    split at hsigils <;> (subst hsigils; have := List.length_pos_iff.mpr hcs; omega)
  obtain ⟨name, hsplit, hle⟩ := hname
  have hdrop : ∀ s : List Char, ('@' :: (cs ++ s)).drop sigils = name ++ s := by
    intro s
    rw [← List.cons_append, hsplit, List.append_assoc, List.drop_left']
    rw [List.length_take, List.length_cons, Nat.min_eq_left hle]
  have hlenname : name.length = cs.length + 1 - sigils := by
    have := congrArg List.length hsplit
    rw [List.length_append, List.length_take, List.length_cons, Nat.min_eq_left hle] at this
    omega
  rw [hdrop] at hpos hlen ⊢
  have hnne : name ≠ [] := by
    rintro rfl
    simp only [List.length_nil] at hlenname
    omega
  obtain ⟨hword, -⟩ := isWord_of_word hnne (r := r) (by omega)
  have hw' := hword.word_append hr
  have hw : Scan.word (name ++ r) = name.length := by omega
  simp only [List.cons_append, sessionVariable?, hsame, hdrop, hw', hw]
  rw [if_pos (by simpa using hc), if_neg (by omega)]

/-! ## Words -/

/-- A word that is no keyword. -/
theorem reread_word {c : Char} {cs : List Char} (hstart : Scan.isWordStart c = true)
    (hword : IsWord (c :: cs)) (hf : Facing r r') (hq : r'.head? ≠ some '\x27')
    (hlast : m.last.any (·.isOperator ".") = m'.last.any (·.isOperator "."))
    (h : m.last.any (·.isOperator ".") = true ∨ c.isAlpha = false ∨
      keyword? dialect.lexicon (c :: cs ++ r) = none) :
    Reads dialect.lexicon m' (c :: cs ++ r') (.plain .word (c :: cs).length) := by
  have hlen := hword.word_append hf.right
  have hbare : Bare dialect.lexicon (c :: (cs ++ r')) := by
    refine .of_word hstart ?_
    cases cs with
    | nil => exact hq
    | cons d cs =>
      obtain ⟨e, es, heq, -, hes⟩ := hword
      obtain ⟨rfl, rfl⟩ := List.cons.inj heq
      have := hes d (by simp)
      rintro hd
      obtain rfl := Option.some.inj hd
      exact absurd this (by decide)
  refine .word hbare ?_
  rw [word?, if_pos (by simpa using hstart), hlen]
  split
  · rfl
  · next hc =>
    simp only [Bool.or_eq_true, Bool.not_eq_true', not_or, Bool.not_eq_false, Bool.not_eq_true] at hc
    rcases h with h | h | h
    · rw [hlast, hc.1] at h
      cases h
    · exact absurd hc.2 (by simp [h])
    · rw [keyword?_none hword hf h]

theorem Respaced.chars (h : Respaced t x) : ∀ c ∈ x, isKeywordChar c = true ∨ isBlank c = true := by
  induction h with
  | word _ hw' _ => exact fun c hc => .inl (hw'.chars c hc)
  | more _ hw' _ _ hg' _ ih =>
    intro c hc
    rcases List.mem_append.mp hc with hc | hc
    · exact .inl (hw'.chars c hc)
    · exact (List.mem_append.mp hc).elim (fun hc => .inr (hg'.2 c hc)) (ih c)

/-- A keyword in another writing. -/
theorem reread_keyword {kind : TokenKind} {key : String} (hx : Respaced t x) (hf : Facing r r')
    (hq : r'.head? ≠ some '\x27') (hlast : m'.last.any (·.isOperator ".") = false)
    (hm : m.atStatementStart = m'.atStatementStart)
    (h : keyword? dialect.lexicon (t ++ r) = some (kind, key, t.length)) :
    Reads dialect.lexicon m' (x ++ r') (.plain (m.refine kind key r) x.length) := by
  have hk := keyword?_respaced hx hf h
  have halpha := hx.head.2
  obtain ⟨c, cs, rfl⟩ : ∃ c cs, x = c :: cs := by
    cases x with
    | nil => cases halpha
    | cons c cs => exact ⟨c, cs, rfl⟩
  simp only [List.head?_cons, Option.any_some] at halpha
  have hstart : Scan.isWordStart c = true := by simp [Scan.isWordStart, halpha]
  have hsecond : (cs ++ r').head? ≠ some '\x27' := by
    cases cs with
    | nil => exact hq
    | cons d cs =>
      intro hd
      obtain rfl := Option.some.inj hd
      exact absurd (hx.chars '\x27' (by simp)) (by decide)
  have hrefine : m.refine kind key r = m'.refine kind key r' := by
    rw [Memory.refine, Memory.refine, hf.opensNothing hm]
  refine .word (.of_word hstart hsecond) ?_
  rw [word?, if_pos (by simpa using hstart), hlast, hk, hrefine]
  simp [halpha]

/-! ## Numbers, brackets and operators -/

theorem AtEdge.endsWord (h : AtEdge r) : endsWord r = true := by
  rw [Lexer.endsWord, h.any (by decide)]
  rfl

theorem startsFraction_congr (hlast : m.last.map (·.kind) = m'.last.map (·.kind)) (d : Char)
    (s s' : List Char) : m.startsFraction ('.' :: d :: s) = m'.startsFraction ('.' :: d :: s') := by
  have hany : ∀ m : Memory, (m.last.any fun t => t.kind == .word || t.kind == .closeParen ||
      t.kind == .string) = (m.last.map (·.kind)).any fun k => k == .word || k == .closeParen ||
        k == .string := by
    intro m
    cases m.last <;> rfl
  simp only [Memory.startsFraction, hany, hlast]

theorem number_fraction {d : Char} (hd : d.isDigit = true) (ds : List Char) :
    2 ≤ Scan.number ('.' :: d :: ds) := by
  have hradix : Scan.radixNumber? ('.' :: d :: ds) = none := by
    cases ds with
    | nil => exact Scan.radixNumber?_short (by simp)
    | cons e es =>
      rw [Scan.radixNumber?_cons, if_neg]
      rintro ⟨h, -⟩
      exact absurd h (by decide)
  have hdot : d ≠ '.' := by rintro rfl; exact absurd hd (by decide)
  have hfrac : Scan.fraction ('.' :: d :: ds) = 1 + Scan.digits (d :: ds) := by
    simp [Scan.fraction_cons, hdot]
  have hzero : Scan.digits ('.' :: d :: ds) = 0 := by simp [Scan.digits, Char.isDigit]
  have hpos := Scan.digits_pos (t := d :: ds) hd
  simp only [Scan.number, hradix, Option.getD_none, Scan.decimal, hzero, List.drop_zero, hfrac]
  omega

/-- What stands before no placeholder and no variable. -/
theorem not_sigil (dialect : Dialect) {c : Char} (hc : c ∉ ['?', '$', ':', '@']) :
    c ∉ dialect.lexicon.placeholders.indexed ∧ c ∉ dialect.lexicon.placeholders.named ∧
      c ∉ dialect.lexicon.variablePrefixes := by
  have hd := dialect.delimits
  simp only [List.mem_cons, List.not_mem_nil, or_false, not_or] at hc
  refine ⟨fun hmem => ?_, fun hmem => ?_, fun hmem => hc.2.2.2 (hd.sigil c hmem).1⟩
  · have := hd.indexed c hmem
    simp only [List.mem_cons, List.not_mem_nil, or_false] at this
    tauto
  · have := hd.named c hmem
    simp only [List.mem_cons, List.not_mem_nil, or_false] at this
    tauto

/-- What starts as a number is read as far as the number goes. -/
theorem reads_number
    (hstart : (t ++ r').head?.any Char.isDigit = true ∨ m'.startsFraction (t ++ r') = true)
    (hlen : Scan.number (t ++ r') = t.length) :
    Reads dialect.lexicon m' (t ++ r') (.plain .number t.length) := by
  obtain ⟨c, cs, htext, hc⟩ : ∃ c cs, t ++ r' = c :: cs ∧ (c.isDigit = true ∨ c = '.') := by
    rcases hstart with hdigit | hf
    · cases htext : t ++ r' with
      | nil => rw [htext] at hdigit; cases hdigit
      | cons c cs => exact ⟨c, cs, rfl, .inl (by rwa [htext] at hdigit)⟩
    · obtain ⟨d, ds, htext, -⟩ := startsFraction_eq_true hf
      exact ⟨'.', d :: ds, htext, .inr rfl⟩
  rw [htext] at hstart hlen ⊢
  have hhead : ((isBlank c = false ∧ c.isAlpha = false ∧ Scan.isWordStart c = false) ∧
      c ∉ ['-', '#', '/'] ∧ c ∉ ['\x27', '\x22', '\x60', '[']) ∧ c ∉ ['?', '$', ':', '@'] := by
    rcases hc with hc | rfl
    · have hk : isKeywordChar c = true := by simp [isKeywordChar, Char.isAlphanum, hc]
      exact ascii_induction (p := fun c => c.isDigit = true →
        ((isBlank c = false ∧ c.isAlpha = false ∧ Scan.isWordStart c = false) ∧
          c ∉ ['-', '#', '/'] ∧ c ∉ ['\x27', '\x22', '\x60', '[']) ∧ c ∉ ['?', '$', ':', '@'])
        (by decide) (isKeywordChar_lt hk) hc
    · decide
  obtain ⟨⟨⟨hblank, halpha, hword⟩, hcom, hq⟩, hsigil⟩ := hhead
  obtain ⟨hindexed, hnamed, hvar⟩ := not_sigil dialect hsigil
  refine .number (.of_head hblank hcom ?_ hq (prefixedString?_none_of_head dialect.delimits halpha))
    (word?_eq_none.mpr hword) (indexedPlaceholder?_none_of_head hindexed)
    (namedPlaceholder?_none_of_head hnamed) (sessionVariable?_none_of_head hvar) ?_
  · rintro rfl
    simp at hsigil
  · rw [number?, if_pos (by simpa using hstart), hlen]

/-- The digit after the dot that a number starts with belongs to the number. -/
theorem startsFraction_number (hf : m.startsFraction (t ++ r) = true) (hne : t ≠ [])
    (hlen : Scan.number (t ++ r) = t.length) :
    ∃ d cs, t = '.' :: d :: cs ∧ d.isDigit = true := by
  obtain ⟨d, ds, htext, hd⟩ := startsFraction_eq_true hf
  have htwo := number_fraction hd ds
  rw [← htext, hlen] at htwo
  match t, htwo with
  | c :: e :: cs, _ =>
    obtain ⟨rfl, htail⟩ := List.cons.inj htext
    obtain ⟨rfl, -⟩ := List.cons.inj htail
    exact ⟨e, cs, rfl, hd⟩

/-- A number, if it ends where it did. -/
theorem reread_number (hlast : m.last.map (·.kind) = m'.last.map (·.kind))
    (h : number? m (t ++ r) = some (.plain .number t.length))
    (hne : t ≠ []) (hlen : Scan.number (t ++ r') = t.length) :
    Reads dialect.lexicon m' (t ++ r') (.plain .number t.length) := by
  obtain ⟨hstart, hfound⟩ := number?_eq_some h
  refine reads_number ?_ hlen
  rcases hstart with hdigit | hf
  · obtain ⟨c, cs, rfl⟩ := List.exists_cons_of_ne_nil hne
    exact .inl hdigit
  · obtain ⟨d, cs, rfl, -⟩ := startsFraction_number hf hne (congrArg Lexeme.length hfound).symm
    exact .inr ((startsFraction_congr hlast d _ _).symm.trans hf)

/-- A bracket is read by its one character. -/
theorem reread_bracket (m' : Memory) (r' : List Char) {found : Lexeme}
    (h : bracket? dialect.lexicon (t ++ r) = some found)
    (hlen : found.length = t.length) (hne : t ≠ [])
    (hq : quotedString? dialect.lexicon (t ++ r) = none) :
    Reads dialect.lexicon m' (t ++ r') found := by
  obtain ⟨c, cs, rfl⟩ := List.exists_cons_of_ne_nil hne
  rw [List.cons_append] at h hq
  obtain ⟨_, _, heq, hfound⟩ := bracket?_eq_some h
  obtain ⟨rfl, rfl⟩ := List.cons.inj heq
  have hc : c ∈ ['(', ')', '[', ']'] := by
    rcases hfound with ⟨rfl, _⟩ | ⟨rfl, _⟩ | ⟨_, rfl, _⟩ | ⟨_, rfl, _⟩ <;> decide
  have hhead : ((isBlank c = false ∧ c.isAlpha = false ∧ Scan.isWordStart c = false) ∧
      c ∉ ['-', '#', '/'] ∧ c.isDigit = false) ∧ c ∉ ['?', '$', ':', '@'] ∧ c ≠ '.' := by
    simp only [List.mem_cons, List.not_mem_nil, or_false] at hc
    rcases hc with rfl | rfl | rfl | rfl <;> decide
  obtain ⟨⟨⟨hblank, halpha, hword⟩, hcom, hdigit⟩, hsigil, hdot⟩ := hhead
  obtain ⟨hindexed, hnamed, hvar⟩ := not_sigil dialect hsigil
  have hnumber : number? m' (c :: (cs ++ r')) = none := by
    cases hn : number? m' (c :: (cs ++ r')) with
    | none => rfl
    | some l =>
      rcases (number?_eq_some hn).1 with hd | hf
      · simp [hdigit] at hd
      · obtain ⟨d, ds, heq, -⟩ := startsFraction_eq_true hf
        exact absurd (List.cons.inj heq).1 hdot
  refine .bracket ⟨blanks?_eq_none.mpr hblank, comment?_none_of_head hcom,
    dollarString?_none_of_head ?_, quotedString?_cons.mpr (quotedString?_cons.mp hq),
    prefixedString?_none_of_head dialect.delimits halpha⟩
    (word?_eq_none.mpr hword) (indexedPlaceholder?_none_of_head hindexed)
    (namedPlaceholder?_none_of_head hnamed) (sessionVariable?_none_of_head hvar) hnumber h
  rintro rfl
  simp at hsigil

/-! ## Operators -/

/-- No name starts with this character. -/
def startsNoName (c : Char) : Bool :=
  !(c == '\x22' || c == '\x60' || c == '\x27') && c != '[' && !(Scan.isWordStart c || c.isDigit)

theorem placeholderName?_eq_none : placeholderName? r = none ↔ r.head?.all startsNoName = true := by
  cases r with
  | nil => simp [placeholderName?]
  | cons c r =>
    simp only [placeholderName?, List.head?_cons, Option.all_some, startsNoName]
    split
    · next h => simp [h]
    · next h =>
      split
      · next hb => simp [beq_iff_eq.mp hb]
      · next hb =>
        split
        · next hw => simp [hw]
        · next hw => simp_all

theorem word_eq_zero_iff : Scan.word r = 0 ↔ r.head?.any Scan.isWordChar = false := by
  cases r with
  | nil => simp [Scan.word]
  | cons c r =>
    simp only [Scan.word, List.head?_cons, Option.any_some]
    split
    · next h => simp [h]
    · next h => simpa using h

section Transfer

variable {c : Char} {s s' : List Char}

/-- A sigil without a number stays one if the next character is the same or ends it. -/
theorem indexedPlaceholder?_transfer
    (h : indexedPlaceholder? dialect.lexicon m (c :: s) = none)
    (hs : s.head? = s'.head? ∨ s'.head?.any Char.isDigit = false) :
    indexedPlaceholder? dialect.lexicon m' (c :: s') = none := by
  by_cases hc : c ∈ dialect.lexicon.placeholders.indexed
  · have hnil : ∀ u : List Char, u.takeWhile Char.isDigit = [] ↔
        u.head?.any Char.isDigit = false := by
      intro u
      cases u with
      | nil => simp
      | cons d u => cases hd : d.isDigit <;> simp [hd]
    rw [indexedPlaceholder?, if_pos (by simpa using hc)] at h ⊢
    simp only at h ⊢
    split at h
    · cases h
    · next hds =>
      have hds : s.takeWhile Char.isDigit = [] := by simpa using hds
      have hds' : s'.takeWhile Char.isDigit = [] := by
        rw [hnil] at hds ⊢
        exact hs.elim (fun heq => heq ▸ hds) id
      split at h
      · cases h
      · next hq => simp [hds', hq]
  · exact indexedPlaceholder?_none_of_head hc

/-- A sigil without a name stays one if the next character is the same or starts none. -/
theorem namedPlaceholder?_transfer (h : namedPlaceholder? dialect.lexicon (c :: s) = none)
    (hs : s.head? = s'.head? ∨ s'.head?.all startsNoName = true) :
    namedPlaceholder? dialect.lexicon (c :: s') = none := by
  by_cases hc : c ∈ dialect.lexicon.placeholders.named
  · rw [namedPlaceholder?, if_pos (by simpa using hc), Option.map_eq_none_iff] at h ⊢
    rw [placeholderName?_eq_none] at h ⊢
    exact hs.elim (fun heq => heq ▸ h) id
  · exact namedPlaceholder?_none_of_head hc

/-- A sigil without a variable stays one if neither it nor another sigil stands before a word. -/
theorem sessionVariable?_transfer (h : sessionVariable? dialect.lexicon (c :: s) = none)
    (hs : (s.head? = s'.head? ∧
        ((s.drop 1).head? = (s'.drop 1).head? ∨ (s'.drop 1).head?.any Scan.isWordChar = false)) ∨
      (s'.head? ≠ some '@' ∧ s'.head?.any Scan.isWordChar = false)) :
    sessionVariable? dialect.lexicon (c :: s') = none := by
  by_cases hc : c ∈ dialect.lexicon.variablePrefixes
  · obtain ⟨rfl, -⟩ := dialect.delimits.sigil c hc
    rw [sessionVariable?, if_pos (by simpa using hc)] at h ⊢
    simp only [ite_eq_left_iff, reduceCtorEq, imp_false, not_not] at h ⊢
    rw [word_eq_zero_iff] at h ⊢
    rcases hs with ⟨heq, hss⟩ | ⟨hne, hno⟩
    · rw [← heq]
      split at h
      · next hat =>
        rw [if_pos hat]
        simp only [List.drop_succ_cons] at h ⊢
        exact hss.elim (fun heq => heq ▸ h) id
      · next hat =>
        rw [if_neg hat]
        simp only [List.drop_succ_cons, List.drop_zero] at h ⊢
        rwa [← heq]
    · rw [if_neg (by simpa using hne)]
      simpa using hno
  · exact sessionVariable?_none_of_head hc

theorem number?_transfer (hlast : m.last.map (·.kind) = m'.last.map (·.kind))
    (h : number? m (c :: s) = none)
    (hs : c = '.' → s.head? = s'.head? ∨ s'.head?.any Char.isDigit = false) :
    number? m' (c :: s') = none := by
  have hn : ¬(c.isDigit = true ∨ m.startsFraction (c :: s) = true) := by
    intro hor
    rw [number?, if_pos (by simpa using hor)] at h
    cases h
  rw [number?, if_neg]
  simp only [List.head?_cons, Option.any_some, Bool.or_eq_true]
  rintro (hd | hf)
  · exact hn (.inl hd)
  · obtain ⟨d, ds, heq, hd⟩ := startsFraction_eq_true hf
    obtain ⟨rfl, rfl⟩ := List.cons.inj heq
    rcases hs rfl with hhead | hno
    · obtain ⟨ds', rfl⟩ : ∃ ds', s = d :: ds' := by
        cases s with
        | nil => cases hhead
        | cons e es => exact ⟨es, by rw [Option.some.inj hhead]⟩
      rw [← startsFraction_congr hlast d ds' ds] at hf
      exact hn (.inr hf)
    · simp [hd] at hno

end Transfer

theorem sessionVariable?_closedEdge {c : Char} {cs : List Char}
    (h : sessionVariable? dialect.lexicon (c :: (cs ++ r)) = none) (hr : AtClosedEdge r') :
    sessionVariable? dialect.lexicon (c :: (cs ++ r')) = none := by
  refine sessionVariable?_transfer h ?_
  match cs with
  | [] => exact .inr ⟨fun h => absurd (hr '@' h) (by decide), hr.any (by decide)⟩
  | [d] => exact .inl ⟨rfl, .inr (hr.any (by decide))⟩
  | d :: e :: cs => exact .inl ⟨rfl, .inl rfl⟩

/-- A dollar sign alone opens no string. -/
theorem dollarString?_edge {lexicon : Lexicon} (hr : AtClosedEdge r) :
    dollarString? lexicon ('$' :: r) = none := by
  have hname : r.takeWhile (fun c => c.isAlphanum || c == '_') = [] := by
    have := Scan.takeWhile_append_stop [] (hr.any (p := fun c => c.isAlphanum || c == '_')
      (by decide))
    simpa using this
  have hne : (r.head? == some '$') = false := by
    have := hr.any (p := (· == '$')) (by decide)
    cases r with
    | nil => rfl
    | cons c r => simpa using this
  simp [dollarString?, Scan.dollarString?, Scan.dollarTag?, hname, hne]

/-- An operator, if it does not run together with what follows and starts no number. -/
theorem reads_operator
    (bare : Bare dialect.lexicon (t ++ r)) (hw : word? dialect.lexicon m (t ++ r) = none)
    (hi : indexedPlaceholder? dialect.lexicon m (t ++ r) = none)
    (hn : namedPlaceholder? dialect.lexicon (t ++ r) = none)
    (hv : sessionVariable? dialect.lexicon (t ++ r) = none)
    (hp : bracket? dialect.lexicon (t ++ r) = none) (hnum : number? m' (t ++ r') = none)
    (hne : t ≠ []) (hcom : comment? dialect.lexicon (t ++ r') = none)
    (hlen : max 1 (Scan.compoundOperator (t ++ r')) = t.length)
    (hsigil : (∀ c ∈ t.head?, c ∉ ['?', '$', ':', '@']) ∨ t = [':', ':'] ∨ AtClosedEdge r') :
    Reads dialect.lexicon m' (t ++ r') (.plain .operator t.length) := by
  have hop : Lexer.operator (t ++ r') = .plain .operator t.length := by rw [Lexer.operator, hlen]
  rw [← hop]
  obtain ⟨c, cs, rfl⟩ := List.exists_cons_of_ne_nil hne
  simp only [List.cons_append] at *
  have hword : Scan.isWordStart c = false := word?_eq_none.mp hw
  have halpha : c.isAlpha = false := by
    simp only [Scan.isWordStart, Bool.or_eq_false_iff] at hword
    exact hword.1.1
  have hsame : cs ≠ [] → (cs ++ r).head? = (cs ++ r').head? := by
    intro hcs
    obtain ⟨d, ds, rfl⟩ := List.exists_cons_of_ne_nil hcs
    rfl
  have hbracket : bracket? dialect.lexicon (c :: (cs ++ r')) = none := hp
  have hquoted : quotedString? dialect.lexicon (c :: (cs ++ r')) = none :=
    quotedString?_cons.mpr (quotedString?_cons.mp bare.quoted)
  have hhead : (c :: (cs ++ r)).head?.any isBlank = false := blanks?_eq_none.mp bare.blanks
  have hblank : blanks? (c :: (cs ++ r')) = none := blanks?_eq_none.mpr hhead
  have hprefixed : prefixedString? dialect.lexicon (c :: (cs ++ r')) = none :=
    prefixedString?_none_of_head dialect.delimits halpha
  by_cases hc : c ∈ ['?', '$', ':', '@']
  · -- The next character is the same, or it is one that ends whatever a sigil may start.
    have hedge : c :: cs = [':', ':'] ∨ AtClosedEdge r' :=
      hsigil.resolve_left fun h => h c rfl hc
    have hclosed : cs = [] → AtClosedEdge r' := by
      rintro rfl
      exact hedge.resolve_left (by simp)
    have hdollar : dollarString? dialect.lexicon (c :: (cs ++ r')) = none := by
      by_cases hd : c = '$'
      · subst hd
        rw [Scan.compoundOperator_dollar] at hlen
        obtain rfl : cs = [] := List.length_eq_zero_iff.mp (by simpa using hlen.symm)
        exact dollarString?_edge (hclosed rfl)
      · exact dollarString?_none_of_head hd
    have hindexed : indexedPlaceholder? dialect.lexicon m' (c :: (cs ++ r')) = none := by
      refine indexedPlaceholder?_transfer hi ?_
      by_cases hcs : cs = []
      · subst hcs
        exact .inr ((hclosed rfl).any (by decide))
      · exact .inl (hsame hcs)
    have hnamed : namedPlaceholder? dialect.lexicon (c :: (cs ++ r')) = none := by
      refine namedPlaceholder?_transfer hn ?_
      by_cases hcs : cs = []
      · subst hcs
        have := (hclosed rfl).any (p := fun c => !startsNoName c) (by decide)
        cases r' with
        | nil => exact .inr rfl
        | cons d r' => exact .inr (by simpa using this)
      · exact .inl (hsame hcs)
    have hsession : sessionVariable? dialect.lexicon (c :: (cs ++ r')) = none := by
      rcases hedge with heq | hclosed
      · refine sessionVariable?_none_of_head fun hmem => ?_
        rw [(dialect.delimits.sigil c hmem).1] at heq
        simp at heq
      · exact sessionVariable?_closedEdge hv hclosed
    exact .operator ⟨hblank, hcom, hdollar, hquoted, hprefixed⟩ (word?_eq_none.mpr hword) hindexed
      hnamed hsession hnum hbracket
  · obtain ⟨hindexed, hnamed, hvar⟩ := not_sigil dialect hc
    have hd : c ≠ '$' := by rintro rfl; simp at hc
    exact .operator ⟨hblank, hcom, dollarString?_none_of_head hd, hquoted, hprefixed⟩
      (word?_eq_none.mpr hword) (indexedPlaceholder?_none_of_head hindexed)
      (namedPlaceholder?_none_of_head hnamed) (sessionVariable?_none_of_head hvar) hnum hbracket

/-- An operator, if it does not run together with what follows. -/
theorem reread_operator (hlast : m.last.map (·.kind) = m'.last.map (·.kind))
    (bare : Bare dialect.lexicon (t ++ r)) (hw : word? dialect.lexicon m (t ++ r) = none)
    (hi : indexedPlaceholder? dialect.lexicon m (t ++ r) = none)
    (hn : namedPlaceholder? dialect.lexicon (t ++ r) = none)
    (hv : sessionVariable? dialect.lexicon (t ++ r) = none)
    (hm : number? m (t ++ r) = none) (hp : bracket? dialect.lexicon (t ++ r) = none)
    (hne : t ≠ []) (hcom : comment? dialect.lexicon (t ++ r') = none)
    (hlen : max 1 (Scan.compoundOperator (t ++ r')) = t.length)
    (hsigil : (∀ c ∈ t.head?, c ∉ ['?', '$', ':', '@']) ∨ t = [':', ':'] ∨ AtClosedEdge r')
    (hdot : t = ['.'] → r'.head?.any Char.isDigit = false) :
    Reads dialect.lexicon m' (t ++ r') (.plain .operator t.length) := by
  refine reads_operator bare hw hi hn hv hp ?_ hne hcom hlen hsigil
  match t, hne with
  | [c], _ => exact number?_transfer hlast hm fun hc => .inr (hdot (by rw [hc]))
  | c :: d :: cs, _ => exact number?_transfer hlast hm fun _ => .inl rfl

end SqlFormat.Lexer

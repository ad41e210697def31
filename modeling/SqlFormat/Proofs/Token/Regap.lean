import Mathlib
import SqlFormat.Proofs.Token.Gaps
import SqlFormat.Proofs.Token.Respell

/-!
# The lexer ignores the amount of white space

When every white space token of a text is replaced by other blanks, the text is cut into the same
tokens, with the new blanks between them. After a line comment the new blanks start with a line
feed, for the comment would go on otherwise.

Every rule of the lexer makes the same of a token before two texts that differ in their gaps: a rule
that reads no blank stops at the first one, a literal that is closed ends at its closing delimiter,
and one that is open has nothing behind it.

Results: `Reads.regap` (one token), `tokenize_regap`.
-/

namespace SqlFormat

open Text

/-- Two tokens that are the same, or white space both. -/
structure Token.SameButGap (a b : Token) : Prop where
  kind : a.kind = b.kind
  text : a.kind ≠ .whitespace → a.text = b.text
  key : a.kind ≠ .whitespace → a.key = b.key

namespace Lexer

variable {dialect : Dialect} {m m' : Memory} {c : Char} {t r r' s s' : List Char}
  {found : Lexeme}

/-! ## Literals -/

/-- A closed string is not followed by its closing delimiter once more. -/
theorem head?_of_closed {style : StringStyle} {a : List Char}
    (h : Scan.stringBody style (a ++ r) = a.length) (hc : Scan.unclosed style a = false) :
    r.head? ≠ some style.closing := by
  fun_induction Scan.unclosed style a with
  | case1 => cases hc
  | case2 c =>
    obtain ⟨hb, he⟩ : (style.backslash && c == '\\') = false ∧ c = style.closing := by
      simpa only [Bool.or_eq_false_iff, bne_eq_false_iff_eq] using hc
    cases r with
    | nil => simp
    | cons d r =>
      rw [List.singleton_append, Scan.stringBody, hb, if_neg Bool.false_ne_true,
        if_pos (beq_iff_eq.mpr he)] at h
      split_ifs at h with hd
      · simp only [List.length_singleton] at h
        omega
      · simpa using hd
  | case3 c d cs hb ih =>
    simp only [List.cons_append, Scan.stringBody, List.length_cons] at h
    rw [if_pos hb] at h
    exact ih (by omega) hc
  | case4 c d cs hb he ih =>
    simp only [List.cons_append, Scan.stringBody, List.length_cons] at h
    rw [if_neg hb, if_pos he] at h
    split_ifs at h with hd
    · exact ih (by omega) (by simpa [hd] using hc)
    · omega
  | case5 c d cs hb he ih =>
    simp only [List.cons_append, Scan.stringBody, List.length_cons] at h
    rw [if_neg hb, if_neg he, ← List.cons_append] at h
    exact ih (by simp only [List.length_cons]; omega) hc

theorem Regapped.stringBody (h : Regapped r r') {style : StringStyle}
    (hstyle : isBlank style.closing = false) {b : List Char}
    (hlen : Scan.stringBody style (b ++ r) = b.length) :
    Scan.stringBody style (b ++ r') = b.length := by
  cases hc : Scan.unclosed style b with
  | false =>
    refine Scan.stringBody_closed hlen hc fun hr' => head?_of_closed hlen hc ?_
    exact (h.head?_eq_some hstyle).mpr hr'
  | true =>
    obtain rfl := Scan.eq_nil_of_unclosed hlen hc
    rwa [h.eq_nil_iff.mp rfl]

theorem Regapped.through (h : Regapped r r') {p b : List Char} (hp : p ≠ [])
    (hlen : Scan.through p (b ++ r) = b.length) : Scan.through p (b ++ r') = b.length := by
  rcases Scan.through_closed hp hlen with ⟨rfl, _⟩ | ⟨_, hall⟩
  · rwa [h.eq_nil_iff.mp rfl]
  · exact hall r'

theorem Regapped.string (h : Regapped r r') (style : StringStyle)
    (hstyle : isBlank style.closing = false) {t : List Char} (hne : t ≠ [])
    (hlen : Scan.string style (t ++ r) = t.length) : Scan.string style (t ++ r') = t.length := by
  obtain ⟨c, b, rfl⟩ := List.exists_cons_of_ne_nil hne
  have hbody : ∀ u, Scan.string style (c :: b ++ u) = 1 + Scan.stringBody style (b ++ u) :=
    fun _ => rfl
  rw [hbody, List.length_cons, Nat.add_comm, Nat.add_right_cancel_iff] at hlen ⊢
  exact h.stringBody hstyle hlen

/-! ## Rules that do not apply -/

theorem not_blank_of_mem {c : Char} {l : List Char} (hc : c ∈ l) (hl : l.all (!isBlank ·) = true) :
    isBlank c = false := by
  simpa using List.all_eq_true.mp hl c hc

theorem closing_not_blank {style : StringStyle} (h : style ∈ dialect.lexicon.strings) :
    isBlank style.closing = false := by
  rcases dialect.delimits.closing style h with h | ⟨h, _⟩
  · exact not_blank_of_mem h (by decide)
  · rw [h]
    rfl

theorem Regapped.startsLineComment (h : Regapped r r') :
    dialect.lexicon.startsLineComment r = dialect.lexicon.startsLineComment r' := by
  rw [Bool.eq_iff_iff, startsLineComment_iff, startsLineComment_iff,
    ← List.isPrefixOf_iff_prefix, ← List.isPrefixOf_iff_prefix, ← List.isPrefixOf_iff_prefix,
    ← List.isPrefixOf_iff_prefix, h.isPrefixOf (l := ['-', '-']) (by decide),
    h.isPrefixOf (l := ['#']) (by decide)]

theorem Regapped.comment?_none (h : Regapped r r')
    (hnone : comment? dialect.lexicon r = none) : comment? dialect.lexicon r' = none := by
  rw [comment?_eq_none] at hnone ⊢
  rw [← h.startsLineComment]
  refine ⟨hnone.1, ?_⟩
  rw [← hnone.2, Scan.startsBlockComment, Scan.startsBlockComment, h.isPrefixOf (by decide)]

theorem Regapped.dollarTag? (h : Regapped s s') :
    Scan.dollarTag? (c :: s) = Scan.dollarTag? (c :: s') := by
  have hp : StopsAtBlank fun c => c.isAlphanum || c == '_' := stopsAtBlank_of (by decide)
  obtain ⟨htake, hdrop⟩ := h.span hp
  by_cases hc : c = '$'
  · subst hc
    have hclose : ((s.drop (s.takeWhile fun c => c.isAlphanum || c == '_').length).head? ==
        some '$') = ((s'.drop (s'.takeWhile fun c => c.isAlphanum || c == '_').length).head? ==
        some '$') := by
      rw [Bool.eq_iff_iff, beq_iff_eq, beq_iff_eq, hdrop.head?_eq_some (by decide)]
    simp only [Scan.dollarTag?, hclose]
    rw [htake]
  · simp [Scan.dollarTag?, hc]

theorem Regapped.dollarString?_none {lexicon : Lexicon} (h : Regapped s s')
    (hnone : dollarString? lexicon (c :: s) = none) : dollarString? lexicon (c :: s') = none := by
  unfold dollarString? at hnone ⊢
  split
  · next hq =>
    rw [if_pos hq, Scan.dollarString?, Option.map_eq_none_iff, Option.map_eq_none_iff,
      h.dollarTag?] at hnone
    rw [Scan.dollarString?, hnone]
    rfl
  · rfl

theorem Regapped.prefixedString?_none (h : Regapped s s')
    (hnone : prefixedString? dialect.lexicon (c :: s) = none) :
    prefixedString? dialect.lexicon (c :: s') = none := by
  by_cases hs : s'.head? = some '\x27'
  · obtain ⟨u, rfl⟩ : ∃ u, s = '\x27' :: u := by
      have := (h.head?_eq_some (by decide)).mpr hs
      cases s with
      | nil => cases this
      | cons d u => exact ⟨u, by rw [Option.some.inj this]⟩
    obtain ⟨u', rfl, _⟩ := h.cons_inv (by decide)
    simp only [prefixedString?] at hnone ⊢
    cases hl : dialect.lexicon.prefixedStrings.lookup c with
    | none => rfl
    | some b => rw [hl] at hnone; cases hnone
  · exact prefixedString?_none_of_second hs

/-- The rules for comments and strings apply to neither text, or to both. -/
theorem Bare.regap (h : Regapped s s') (bare : Bare dialect.lexicon (c :: s)) :
    Bare dialect.lexicon (c :: s') where
  blanks := by
    have := blanks?_eq_none.mp bare.blanks
    exact blanks?_eq_none.mpr this
  comment := (h.same c).comment?_none bare.comment
  dollar := h.dollarString?_none bare.dollar
  quoted := quotedString?_cons.mpr (quotedString?_cons.mp bare.quoted)
  prefixed := h.prefixedString?_none bare.prefixed

/-! ## Rules that read no blank -/

theorem Regapped.indexedPlaceholder? (h : Regapped s s') (hm : m.positional = m'.positional)
    (lexicon : Lexicon) :
    indexedPlaceholder? lexicon m (c :: s) = indexedPlaceholder? lexicon m' (c :: s') := by
  have hp : StopsAtBlank Char.isDigit := stopsAtBlank_of (by decide)
  simp only [Lexer.indexedPlaceholder?, (h.span hp).1, hm]

theorem Regapped.namedPlaceholder?_none {lexicon : Lexicon} (h : Regapped s s')
    (hnone : namedPlaceholder? lexicon (c :: s) = none) :
    namedPlaceholder? lexicon (c :: s') = none := by
  by_cases hc : c ∈ lexicon.placeholders.named
  · rw [namedPlaceholder?, if_pos (by simpa using hc), Option.map_eq_none_iff,
      placeholderName?_eq_none] at hnone ⊢
    have hp : StopsAtBlank fun c => !startsNoName c := stopsAtBlank_of (by decide)
    have hall : ∀ u : List Char,
        u.head?.all startsNoName = !u.head?.any fun c => !startsNoName c := by
      intro u
      cases u <;> simp
    rw [hall, ← h.any_head? hp, ← hall, hnone]
  · exact namedPlaceholder?_none_of_head hc

theorem Regapped.sessionVariable? (h : Regapped s s') :
    sessionVariable? dialect.lexicon (c :: s) = sessionVariable? dialect.lexicon (c :: s') := by
  by_cases hc : c ∈ dialect.lexicon.variablePrefixes
  · obtain ⟨rfl, _⟩ := dialect.delimits.sigil c hc
    have hat : (s.head? == some '@') = (s'.head? == some '@') := by
      rw [Bool.eq_iff_iff, beq_iff_eq, beq_iff_eq, h.head?_eq_some (by decide)]
    simp only [Lexer.sessionVariable?, hat]
    split
    · have hword : ∀ n, n = (if s'.head? == some '@' then 2 else 1) →
          Scan.word (('@' :: s).drop n) = Scan.word (('@' :: s').drop n) := by
        rintro n rfl
        split
        · next hat' =>
          have hp : StopsAtBlank (· == '@') := stopsAtBlank_of (by decide)
          refine (h.drop_one hp ?_).word.1
          rw [h.any_head? hp]
          cases s' <;> simp at hat' ⊢; exact hat'
        · exact h.word.1
      rw [hword _ rfl]
    · rfl
  · rw [sessionVariable?_none_of_head hc, sessionVariable?_none_of_head hc]

theorem Regapped.number? (h : Regapped s s') (hm : m.last.map (·.kind) = m'.last.map (·.kind)) :
    number? m (c :: s) = number? m' (c :: s') := by
  have hfraction : m.startsFraction (c :: s) = m'.startsFraction (c :: s') := by
    have hdigit : StopsAtBlank Char.isDigit := stopsAtBlank_of (by decide)
    by_cases hc : c = '.'
    · subst hc
      cases h with
      | nil => rfl
      | same d => exact startsFraction_congr hm d _ _
      | gap hc hd => simp [Memory.startsFraction, hdigit _ hc, hdigit _ hd]
    · simp [Memory.startsFraction, hc]
  rw [Lexer.number?, Lexer.number?, hfraction, (h.same c).number]
  rfl

theorem Regapped.operator (h : Regapped r r') : operator r = operator r' := by
  rw [Lexer.operator, Lexer.operator, h.compoundOperator]

/-! ## Comments, strings and names -/

/-- A comment before another gap. The one that ends with its line is followed by a line feed. -/
theorem Regapped.comment? (hr : Regapped r r')
    (h : comment? dialect.lexicon (t ++ r) = some found) (hlen : found.length = t.length)
    (hline : found.kind = .lineComment → r' = [] ∨ r'.head? = some '\n') :
    comment? dialect.lexicon (t ++ r') = some found := by
  have hstart : dialect.lexicon.startsLineComment (t ++ r) =
      dialect.lexicon.startsLineComment (t ++ r') := (hr.append t).startsLineComment
  have hblock : Scan.startsBlockComment (t ++ r) = Scan.startsBlockComment (t ++ r') :=
    (hr.append t).isPrefixOf (by decide)
  rcases comment?_eq_some h with ⟨hl, rfl⟩ | ⟨hl, hb, rfl⟩
  · have hall := (Scan.takeWhile_append_eq hlen).1
    have hstop : r'.head?.any (· != '\n') = false := by
      rcases hline rfl with rfl | hhead
      · rfl
      · rw [hhead]
        rfl
    have hlen' : Scan.lineComment (t ++ r') = t.length := by
      rw [Scan.lineComment, Scan.takeWhile_append_stop t hstop, List.takeWhile_eq_self_iff.mpr hall]
    have hlen : Scan.lineComment (t ++ r) = t.length := hlen
    rw [Lexer.comment?, if_pos (hstart ▸ hl), hlen, hlen']
  · obtain ⟨b, rfl⟩ : ∃ b, t = '/' :: '*' :: b := by
      obtain ⟨rest, hrest⟩ := List.isPrefixOf_iff_prefix.mp hb
      have hle : 2 ≤ t.length := by rw [← hlen]; exact Nat.le_add_right 2 _
      rcases t with _ | ⟨a, _ | ⟨d, b⟩⟩
      · exact absurd hle (by simp)
      · exact absurd hle (by simp)
      · simp only [List.cons_append, List.cons.injEq] at hrest
        exact ⟨b, by rw [hrest.1, hrest.2.1]⟩
    have hbody : Scan.through ['*', '/'] (b ++ r) = b.length := by
      simp only [Lexeme.plain, Scan.blockComment, List.cons_append, List.drop_succ_cons,
        List.drop_zero, List.length_cons] at hlen
      omega
    rw [Lexer.comment?, ← hstart, ← hblock, hl, hb, if_neg Bool.false_ne_true, if_pos rfl]
    simp only [Scan.blockComment, List.cons_append, List.drop_succ_cons, List.drop_zero, hbody,
      hr.through (by simp) hbody]

theorem Regapped.dollarString? {lexicon : Lexicon} (hr : Regapped r r') (hne : t ≠ [])
    (h : dollarString? lexicon (t ++ r) = some found) (hlen : found.length = t.length) :
    dollarString? lexicon (t ++ r') = some found := by
  obtain ⟨hq, n, hn, rfl⟩ := dollarString?_eq_some h
  obtain rfl : n = t.length := hlen
  obtain ⟨tag, htag, hthrough⟩ := Option.map_eq_some_iff.mp hn
  have htag' : Scan.dollarTag? (t ++ r') = some tag := by
    obtain ⟨c, cs, rfl⟩ := List.exists_cons_of_ne_nil hne
    rw [← htag]
    exact (hr.append cs).dollarTag?.symm
  obtain ⟨b, rfl⟩ : tag <+: t := List.prefix_of_prefix_length_le
    (Scan.isPrefix_of_dollarTag? htag) (List.prefix_append t r) (by omega)
  rw [List.append_assoc, List.drop_left' rfl, List.length_append, Nat.add_left_cancel_iff]
    at hthrough
  have htag_ne : tag ≠ [] := by
    have hhead := (dollarTag?_append htag []).2.1
    rintro rfl
    cases hhead
  rw [Lexer.dollarString?, if_pos hq, Scan.dollarString?, htag', Option.map_some, Option.map_some,
    List.append_assoc, List.drop_left' rfl, hr.through htag_ne hthrough, List.length_append]

theorem Regapped.quotedString? (hr : Regapped r r') (hne : t ≠ [])
    (h : quotedString? dialect.lexicon (t ++ r) = some found) (hlen : found.length = t.length) :
    quotedString? dialect.lexicon (t ++ r') = some found := by
  obtain ⟨c, cs, rfl⟩ := List.exists_cons_of_ne_nil hne
  obtain ⟨c', cs', style, heq, hstyle, rfl⟩ := quotedString?_eq_some h
  obtain ⟨rfl, rfl⟩ := List.cons.inj heq
  have hclosing := closing_not_blank (stringStyle?_eq_some hstyle).1
  have hlen : Scan.string style (c :: cs ++ r) = (c :: cs).length := hlen
  simp only [List.cons_append, Lexer.quotedString?, List.head?_cons, Option.bind_eq_bind,
    Option.bind_some, hstyle]
  rw [← List.cons_append, ← List.cons_append, hr.string style hclosing hne hlen, hlen]
  rfl

theorem Regapped.prefixedString? (hr : Regapped r r') (hne : t ≠ [])
    (h : prefixedString? dialect.lexicon (t ++ r) = some found) (hlen : found.length = t.length) :
    prefixedString? dialect.lexicon (t ++ r') = some found := by
  obtain ⟨c, cs, rfl⟩ := List.exists_cons_of_ne_nil hne
  obtain ⟨letter, cs', backslash, heq, hl, rfl⟩ := prefixedString?_eq_some h
  rw [List.cons_append] at heq
  obtain ⟨rfl, hcs⟩ := List.cons.inj heq
  obtain ⟨b, rfl⟩ : ∃ b, cs = '\x27' :: b := by
    cases cs with
    | nil => simp only [Lexeme.plain, Scan.string, List.length_singleton] at hlen; omega
    | cons d b => exact ⟨b, by rw [(List.cons.inj hcs).1]⟩
  rw [List.cons_append, List.cons.injEq] at hcs
  obtain ⟨-, rfl⟩ := hcs
  have hstring : Scan.string ⟨'\x27', '\x27', backslash⟩ ('\x27' :: b ++ r) =
      ('\x27' :: b).length := by
    simp only [Lexeme.plain, List.cons_append, List.length_cons] at hlen ⊢
    omega
  have hstring' := hr.string ⟨'\x27', '\x27', backslash⟩ (by simp [isBlank]) (by simp) hstring
  simp only [List.cons_append] at hstring hstring' ⊢
  simp only [Lexer.prefixedString?, hl, Option.bind_eq_bind, Option.bind_some, hstring, hstring']
  rfl

/-- The name of a placeholder before another gap. -/
theorem Regapped.placeholderName? (hr : Regapped r r') {n name : List Char}
    (h : placeholderName? (n ++ r) = some (n.length, name)) :
    placeholderName? (n ++ r') = some (n.length, name) := by
  obtain ⟨q, b, rfl⟩ := List.exists_cons_of_length_pos (placeholderName?_pos h)
  have hq' : (q == '\x22' || q == '\x60' || q == '\x27') = true → isBlank q = false := by
    simp only [Bool.or_eq_true, beq_iff_eq]
    rintro ((rfl | rfl) | rfl) <;> rfl
  have hne : q :: b ≠ [] := by simp
  rw [List.cons_append] at h ⊢
  simp only [Lexer.placeholderName?] at h ⊢
  -- In each of the forms the scanner reaches to the end of the name, and the name is what it read.
  have hread : ∀ (read : List Char → List Char) {reach reach' : Nat},
      (reach = (q :: b).length → reach' = (q :: b).length) →
      some (reach, read ((q :: (b ++ r)).take reach)) = some ((q :: b).length, name) →
      some (reach', read ((q :: (b ++ r')).take reach')) = some ((q :: b).length, name) := by
    intro read reach reach' hreach h
    obtain ⟨hlen, hname⟩ := Prod.mk.inj (Option.some.inj h)
    rw [← List.cons_append, hlen, List.take_left' rfl] at hname
    rw [← List.cons_append, hreach hlen, List.take_left' rfl, hname]
  split at h
  · next hq =>
    rw [if_pos hq]
    exact hread unquote (hr.string (.quoted q) (hq' hq) hne) h
  · next hq =>
    rw [if_neg hq]
    split at h
    · next hb =>
      rw [if_pos hb]
      exact hread unquote (hr.through (List.cons_ne_nil _ _)) h
    · next hb =>
      rw [if_neg hb]
      split at h
      · next hw =>
        rw [if_pos hw]
        exact hread id (fun hlen => (hr.append (q :: b)).word.1 ▸ hlen) h
      · cases h

/-- A phrase is a writing of itself. -/
theorem Phrased.respaced_self {ws : List (List Char)} (h : Phrased t ws) : Respaced t t := by
  induction h with
  | word hw => exact .word hw hw rfl
  | more hw hg _ ih => exact .more hw hw rfl hg hg ih

/-- A word or a keyword before another gap: the same words are ahead of it. -/
theorem Regapped.word? (hm : m.Alike m') (hr : Regapped r r') (hne : t ≠ [])
    (h : word? dialect.lexicon m (t ++ r) = some found) (hlen : found.length = t.length) :
    word? dialect.lexicon m' (t ++ r') = some found := by
  obtain ⟨c, cs, rfl⟩ := List.exists_cons_of_ne_nil hne
  have hdot := hm.any_isOperator "."
  obtain ⟨hstart, ⟨hplain, rfl⟩ | ⟨hlast, halpha, kind, key, length, hkey, rfl⟩⟩ := word?_eq_some h
  -- What is asked of the first character is asked of the same one.
  all_goals
    have hstart' : (c :: cs ++ r').head?.any Scan.isWordStart = true := hstart
    have hhead : (c :: cs ++ r').head?.any Char.isAlpha =
        (c :: cs ++ r).head?.any Char.isAlpha := rfl
    rw [Lexer.word?, if_pos hstart', ← hdot, hhead]
  · have hlen : Scan.word (c :: cs ++ r) = (c :: cs).length := hlen
    obtain ⟨hword, hends⟩ := isWord_of_word (by simp) hlen
    have hlen' : Scan.word (c :: cs ++ r') = (c :: cs).length := (hr.append _).word.1 ▸ hlen
    rw [hlen, hlen']
    split
    · rfl
    · next hc =>
      rw [Bool.or_eq_true, not_or, Bool.not_eq_true', Bool.not_eq_false] at hc
      have hnone : keyword? dialect.lexicon (c :: cs ++ r) = none :=
        (hplain.resolve_left hc.1).resolve_left fun h => by rw [hc.2] at h; cases h
      rw [keyword?_none hword (hr.facing hends) hnone]
  · obtain rfl : length = (c :: cs).length := hlen
    obtain ⟨ws, hws⟩ := phrased_of_keyword hkey halpha
    have hends := endsWord_of_phrases (keyword?_eq_some hkey).1 (by
      rw [Option.any_eq_true] at halpha ⊢
      obtain ⟨d, hd, ha⟩ := halpha
      exact ⟨d, hd, by simp [Scan.isWordChar, Char.isAlphanum, ha]⟩)
    rw [List.take_left' rfl] at hws
    rw [List.drop_left' rfl] at hends ⊢
    have hfacing := hr.facing hends
    have hkey' := keyword?_respaced hws.respaced_self hfacing hkey
    have hnothing := hfacing.opensNothing hm.atStatementStart key
    rw [hlast, halpha, Bool.not_true, Bool.or_self, if_neg Bool.false_ne_true, hkey']
    simp only [List.drop_left', Memory.refine, hnothing]

theorem Reads.regap (hm : m.Alike m') (h : Reads dialect.lexicon m (t ++ r) found)
    (hlen : found.length = t.length) (hne : t ≠ []) (hk : found.kind ≠ .whitespace)
    (hr : Regapped r r')
    (hline : found.kind = .lineComment → r' = [] ∨ r'.head? = some '\n') :
    Reads dialect.lexicon m' (t ++ r') found := by
  obtain ⟨c, cs, rfl⟩ := List.exists_cons_of_ne_nil hne
  have hrest : Regapped (cs ++ r) (cs ++ r') := hr.append cs
  rw [List.cons_append] at h ⊢
  have hblank : blanks? (c :: (cs ++ r)) = none → blanks? (c :: (cs ++ r')) = none := by
    rw [blanks?_eq_none, blanks?_eq_none]
    exact id
  have hword : word? dialect.lexicon m (c :: (cs ++ r)) = none →
      word? dialect.lexicon m' (c :: (cs ++ r')) = none := by
    rw [word?_eq_none, word?_eq_none]
    exact id
  have hindexed := hrest.indexedPlaceholder? (c := c) hm.positional dialect.lexicon
  have hsession : sessionVariable? dialect.lexicon (c :: (cs ++ r)) =
      sessionVariable? dialect.lexicon (c :: (cs ++ r')) := hrest.sessionVariable?
  have hnumber := hrest.number? (c := c) hm.map_kind
  cases h with
  | blanks h => obtain ⟨_, rfl⟩ := blanks?_eq_some h; exact absurd rfl hk
  | comment hb h =>
    exact .comment (hblank hb) (hr.comment? (t := c :: cs) h hlen hline)
  | dollar hb hc h =>
    exact .dollar (hblank hb) ((hrest.same c).comment?_none hc) (hr.dollarString? hne h hlen)
  | quoted hb hc hd h =>
    exact .quoted (hblank hb) ((hrest.same c).comment?_none hc) (hrest.dollarString?_none hd)
      (hr.quotedString? hne h hlen)
  | prefixed hb hc hd hq h =>
    exact .prefixed (hblank hb) ((hrest.same c).comment?_none hc) (hrest.dollarString?_none hd)
      (quotedString?_cons.mpr (quotedString?_cons.mp hq)) (hr.prefixedString? hne h hlen)
  | word bare h => exact .word (bare.regap hrest) (hr.word? hm hne h hlen)
  | indexed bare hw h => exact .indexed (bare.regap hrest) (hword hw) (hindexed ▸ h)
  | named bare hw hi h =>
    refine .named (bare.regap hrest) (hword hw) (hindexed ▸ hi) ?_
    obtain ⟨c', cs', n, name, heq, hc, hn, rfl⟩ := namedPlaceholder?_eq_some h
    obtain ⟨rfl, rfl⟩ := List.cons.inj heq
    obtain rfl : n = cs.length := by simp only [List.length_cons] at hlen; omega
    rw [namedPlaceholder?, if_pos (by simpa using hc), hr.placeholderName? hn]
    rfl
  | sessionVariable bare hw hi hn h =>
    exact .sessionVariable (bare.regap hrest) (hword hw) (hindexed ▸ hi)
      (hrest.namedPlaceholder?_none hn) (hsession ▸ h)
  | number bare hw hi hn hv h =>
    exact .number (bare.regap hrest) (hword hw) (hindexed ▸ hi) (hrest.namedPlaceholder?_none hn)
      (hsession ▸ hv) (hnumber ▸ h)
  | bracket bare hw hi hn hv hm h =>
    exact .bracket (bare.regap hrest) (hword hw) (hindexed ▸ hi) (hrest.namedPlaceholder?_none hn)
      (hsession ▸ hv) (hnumber ▸ hm) h
  | operator bare hw hi hn hv hm hp =>
    rw [(hrest.same c).operator]
    exact .operator (bare.regap hrest) (hword hw) (hindexed ▸ hi) (hrest.namedPlaceholder?_none hn)
      (hsession ▸ hv) (hnumber ▸ hm) hp

/-! ## All tokens -/

/-- The text spells the tokens out, with other blanks for each token of white space. What stands
for white space after a line comment starts with a line feed. -/
inductive Regaps : (before : Option Token) → List Token → List Char → Prop
  | nil {before : Option Token} : Regaps before [] []
  | kept {before : Option Token} {t : Token} {ts : List Token} {cs : List Char}
      (hk : t.kind ≠ .whitespace) (rest : Regaps (some t) ts cs) :
      Regaps before (t :: ts) (t.text.toList ++ cs)
  | gap {before : Option Token} {t : Token} {ts : List Token} {g cs : List Char}
      (hk : t.kind = .whitespace) (hg : IsGap g)
      (lineEnd : ∀ b ∈ before, b.kind = .lineComment → g.head? = some '\n')
      (rest : Regaps (some t) ts cs) : Regaps before (t :: ts) (g ++ cs)

variable {before : Option Token} {pos pos' : Nat} {text new : List Char}

theorem Reads.take_ne_nil (h : Reads dialect.lexicon m text found) (hne : text ≠ []) :
    text.take found.length ≠ [] := by
  rw [ne_eq, List.take_eq_nil_iff, not_or]
  exact ⟨h.length_pos.ne', hne⟩

/-- White space is read to its end. -/
theorem Reads.head?_drop_whitespace (h : Reads dialect.lexicon m text found)
    (hk : found.kind = .whitespace) : (text.drop found.length).head?.any isBlank = false := by
  rw [h.whitespace hk]
  exact Scan.head?_drop_takeWhile isBlank text

/-- What follows white space is no blank, neither in the text nor in the new one. -/
theorem Regaps.head?_after_gap (h : Regaps before (tokensFrom dialect.lexicon m pos text) new)
    (htext : text.head?.any isBlank = false) : new.head?.any isBlank = false := by
  by_cases hne : text = []
  · subst hne
    rw [tokensFrom_nil] at h
    cases h
    rfl
  · have hr := lexeme_reads dialect.lexicon m text
    rw [tokensFrom_cons dialect m pos hne hr] at h
    generalize lexeme dialect.lexicon m text = found at hr h
    have hkind : found.kind ≠ .whitespace := by
      intro hk
      rw [hr.kind_eq_whitespace.mp hk] at htext
      cases htext
    cases h with
    | kept =>
      obtain ⟨c, cs, hcs, hc⟩ := hr.head_not_blank hne hkind
      rw [Lexeme.token_text, String.toList_ofList, hcs]
      exact hc
    | gap hk => exact absurd hk hkind

/-- A text and one that spells its tokens out with other gaps differ in their gaps. -/
theorem Regaps.regapped (h : Regaps before (tokensFrom dialect.lexicon m pos text) new) :
    Regapped text new := by
  induction m, pos, text using cut_induction dialect generalizing before new with
  | nil m pos =>
    rw [tokensFrom_nil] at h
    cases h
    exact .nil
  | cut m pos text found hne hr ih =>
    rw [tokensFrom_cons dialect m pos hne hr] at h
    cases h with
    | kept hk rest =>
      rw [Lexeme.token_text, String.toList_ofList]
      conv_lhs => rw [← List.take_append_drop found.length text]
      exact (ih rest).append _
    | gap hk hg _ rest =>
      have hstop := hr.head?_drop_whitespace hk
      have hgap : IsGap (text.take found.length) := by
        refine ⟨hr.take_ne_nil hne, fun c hc => ?_⟩
        rw [hr.whitespace hk, Lexeme.plain, Scan.blanks,
          ← List.prefix_iff_eq_take.mp (List.takeWhile_prefix _)] at hc
        exact List.mem_takeWhile_imp hc
      conv_lhs => rw [← List.take_append_drop found.length text]
      exact .append_gap hgap hg hstop (rest.head?_after_gap hstop) (ih rest)

/-- Where a line comment ends, the new text ends or goes on with a line feed. -/
theorem Regaps.lineEnd {b : Token} (hb : b.kind = .lineComment)
    (hfollows : ∀ t ∈ (tokensFrom dialect.lexicon m pos text).head?, Follows b t)
    (h : Regaps (some b) (tokensFrom dialect.lexicon m pos text) new) :
    new = [] ∨ new.head? = some '\n' := by
  generalize tokensFrom dialect.lexicon m pos text = ts at hfollows h
  cases h with
  | nil => exact .inl rfl
  | kept hk => exact absurd ((hfollows _ rfl).2 hb).1 hk
  | gap _ hg lineEnd =>
    right
    rw [List.head?_append_of_ne_nil _ hg.1]
    exact lineEnd b rfl hb

/-- The tokens of the new text are those of the text, with other white space between them. -/
theorem Regaps.tokens (hm : m.Alike m')
    (h : Regaps before (tokensFrom dialect.lexicon m pos text) new) :
    List.Forall₂ Token.SameButGap (tokensFrom dialect.lexicon m pos text)
      (tokensFrom dialect.lexicon m' pos' new) := by
  induction m, pos, text using cut_induction dialect generalizing before m' pos' new with
  | nil m pos =>
    rw [tokensFrom_nil] at h ⊢
    cases h
    rw [tokensFrom_nil]
    exact .nil
  | cut m pos text found hne hr ih =>
    have hchain := isChain_follows dialect m pos text
    rw [tokensFrom_cons dialect m pos hne hr] at h hchain ⊢
    have hfollows := (List.isChain_cons.mp hchain).1
    have htake := hr.take_ne_nil hne
    have hlen : found.length = (text.take found.length).length := by
      rw [List.length_take, Nat.min_eq_left (hr.length_le hne)]
    cases h with
    | @kept _ _ _ cs hk rest =>
      -- The same rule reads the same token, and goes on with a memory like the one it had.
      have hread : Reads dialect.lexicon m' (text.take found.length ++ cs) found :=
        Reads.regap hm (by rwa [List.take_append_drop]) hlen htake hk rest.regapped
          fun hl => rest.lineEnd hl hfollows
      rw [Lexeme.token_text, String.toList_ofList,
        tokensFrom_cons dialect m' pos' (by simp [htake]) hread]
      have hsame : Token.SameButGap (found.token text pos)
          (found.token (text.take found.length ++ cs) pos') := by
        refine ⟨rfl, fun _ => ?_, fun _ => rfl⟩
        rw [Lexeme.token_text, Lexeme.token_text, List.take_left' hlen.symm]
      have halike := hm.after hsame.kind
        (fun _ => .of_text hsame.kind (hsame.text hk)) fun _ => hsame.text hk
      rw [List.take_left' hlen.symm, List.drop_left' hlen.symm]
      exact .cons hsame (ih halike rest)
    | @gap _ _ _ g cs hk hg _ rest =>
      have hstop := hr.head?_drop_whitespace hk
      have hread := reads_gap hg (rest.head?_after_gap hstop) dialect.lexicon m'
      have hsame : Token.SameButGap (found.token text pos)
          ((Lexeme.plain .whitespace g.length).token (g ++ cs) pos') :=
        ⟨hk, fun h => absurd hk h, fun h => absurd hk h⟩
      rw [tokensFrom_cons dialect m' pos' (by simp [hg.1]) hread]
      refine .cons hsame ?_
      rw [Memory.Alike.after_whitespace m' rfl, Lexeme.plain, List.take_left' rfl,
        List.drop_left' rfl]
      rw [Memory.Alike.after_whitespace m (by exact hk)] at ih rest ⊢
      exact ih hm rest

end Lexer

/-- What a token is without its place in the text. -/
def Token.content (t : Token) : TokenKind × String × Option PlaceholderKey :=
  (t.kind, t.text, t.key)

theorem filter_sameButGap {ts ts' : List Token} (h : List.Forall₂ Token.SameButGap ts ts') :
    (ts'.filter (·.kind != .whitespace)).map Token.content =
      (ts.filter (·.kind != .whitespace)).map Token.content := by
  induction h with
  | nil => rfl
  | @cons a b ts ts' hab _ ih =>
    have hkind : b.kind = .whitespace ↔ a.kind = .whitespace := by rw [hab.kind]
    by_cases hk : a.kind = .whitespace
    · rw [List.filter_cons_of_neg (by simp [hkind, hk]), List.filter_cons_of_neg (by simp [hk]), ih]
    · rw [List.filter_cons_of_pos (by simpa [hkind] using hk),
        List.filter_cons_of_pos (by simpa using hk), List.map_cons, List.map_cons, ih,
        Token.content, Token.content, hab.kind, hab.text hk, hab.key hk]

/-- However much white space stands between the tokens of a text, the other tokens are the same. -/
theorem tokenize_regap (dialect : Dialect) {text new : String}
    (h : Lexer.Regaps none (tokenize dialect.lexicon text) new.toList) :
    ((tokenize dialect.lexicon new).filter (·.kind != .whitespace)).map Token.content =
      ((tokenize dialect.lexicon text).filter (·.kind != .whitespace)).map Token.content :=
  filter_sameButGap (h.tokens (.refl .start))

/-- `BEGIN` is read as it is because of `WORK`, which stands behind the gap. -/
theorem tokenize_regap_begin :
    ((tokenize Dialect.postgresql.lexicon "BEGIN\t\tWORK-- a\n\n;").filter
        (·.kind != .whitespace)).map Token.content =
      ((tokenize Dialect.postgresql.lexicon "BEGIN WORK-- a\n ;").filter
        (·.kind != .whitespace)).map Token.content := by
  refine tokenize_regap .postgresql ?_
  have htokens : tokenize Dialect.postgresql.lexicon "BEGIN WORK-- a\n ;" =
      [.plain .reserved "BEGIN" 0, .plain .whitespace " " 5, .plain .reserved "WORK" 6,
       .plain .lineComment "-- a" 10, .plain .whitespace "\n " 14, .plain .operator ";" 16] := by
    decide +kernel
  have hnew : "BEGIN\t\tWORK-- a\n\n;".toList = "BEGIN".toList ++ (['\t', '\t'] ++
      ("WORK".toList ++ ("-- a".toList ++ (['\n', '\n'] ++ (";".toList ++ []))))) := by
    decide
  rw [htokens, hnew]
  have htabs : Lexer.IsGap ['\t', '\t'] := ⟨by simp, by simp [isBlank]⟩
  have hlines : Lexer.IsGap ['\n', '\n'] := ⟨by simp, by simp [isBlank]⟩
  refine .kept (by decide) (.gap rfl htabs (by rintro _ ⟨⟩ ⟨⟩) ?_)
  refine .kept (by decide) (.kept (by decide) (.gap rfl hlines (fun _ _ _ => rfl) ?_))
  exact .kept (by decide) .nil

end SqlFormat

import Mathlib
import SqlFormat.Proofs.Format.Aligned
import SqlFormat.Proofs.Text.Reindent

/-!
# The ends of lines

A line of a formatted text ends with something that can be seen. The blanks between two tokens end with a
margin, a token ends with no white space when another follows it, and block comments are indented without
white space at the ends of their lines. What is left are the lines that end within a literal, which is
written as it is.

Results: `Trace.neat` (the pieces of a text), `no_trailing_space`.
-/

namespace SqlFormat.Layout

open Text

variable {ctx : Context} {s : State} {item : Item} {ps qs : List Piece} {p : Piece}

/-! ## Pieces -/

/-- A style that indents comments anew, and lines with white space other than line feeds. -/
structure Context.Indents (ctx : Context) : Prop where
  white : AllWhite ctx.style.indent.toList
  feed : '\n' ∉ ctx.style.indent.toList
  comments : ctx.style.preserveCommentIndent = false

/-- A piece of which no line ends with white space, the lines of a literal apart. -/
structure NeatPiece (p : Piece) : Prop where
  gap : NeatLines p.gap
  comment : p.token.kind = .blockComment → NeatLines p.text
  keyword : p.token.kind.isReserved = true ∨ p.token.kind = .openParen ∨ p.token.kind = .closeParen →
    '\n' ∉ p.text

theorem Page.neat_gap {unit : String} (hfeed : '\n' ∉ unit.toList) (page : Page) (space : Bool) :
    NeatLines (page.gap unit space) := by
  unfold Page.gap
  split
  · next indent _ =>
    refine NeatLines.append_of_not_mem ?_ (not_mem_margin hfeed indent)
    split
    · exact neatLines_replicate 0
    · exact neatLines_replicate _
  · refine neatLines_of_not_mem ?_
    split <;> simp

theorem neatLines_commentText (h : ctx.Indents) {token : Token} (hk : token.kind = .blockComment)
    (indent : Nat) : NeatLines (State.commentText ctx token indent).toList := by
  have hline : ¬(token.kind == .lineComment) = true := by
    rw [hk]
    decide
  rw [State.commentText, if_neg hline, if_neg (by simp [h.comments])]
  exact neatLines_reindent h.white h.feed indent token.text

/-- Keywords and brackets are written on one line. -/
theorem feed_not_mem_displayText {dialect : Dialect} {token : Token} (hsound : token.Sound dialect)
    (hk : token.kind.isReserved = true ∨ token.kind = .openParen ∨ token.kind = .closeParen) :
    '\n' ∉ (State.displayText ctx token).toList := by
  unfold State.displayText
  split
  · next hkeyword =>
    obtain ⟨ws, hws, htext⟩ := exists_keywordText hsound hkeyword ctx.keywordCase
    rw [htext]
    intro hmem
    obtain ⟨c, hc, hfeed⟩ := List.mem_map.mp hmem
    have hkeeps := ctx.keywordCase.keeps (hws.ascii_intercalate c hc)
    rcases hws.chars_intercalate c hc with hkey | rfl
    · rw [← hkeeps.isKeywordChar, hfeed] at hkey
      exact absurd hkey (by decide)
    · rw [KeywordCase.letter_space] at hfeed
      exact absurd hfeed (by decide)
  · next hkeyword =>
    have hbracket : token.isBracket = true := by
      simp only [Token.isKeyword, Bool.or_eq_true, Bool.and_eq_true, beq_iff_eq, Bool.not_eq_true',
        not_or, not_and, Bool.not_eq_false] at hkeyword
      rcases hk with hk | hk
      · exact absurd hk hkeyword.1
      · exact hkeyword.2 hk
    simp only [Token.isBracket, Bool.and_eq_true, Bool.or_eq_true, beq_iff_eq] at hbracket
    rcases hbracket.2 with ((h | h) | h) | h <;> rw [h] <;> decide

theorem Adds.neat (hindents : ctx.Indents) (hsound : item.token.Sound ctx.dialect)
    (h : Adds ctx s item p) : NeatPiece p := by
  cases h with
  | comment hc =>
    refine ⟨?_, fun hk => neatLines_commentText hindents hk _, fun hk => ?_⟩
    · simp only [State.commentPiece]
      split
      · exact neatLines_of_not_mem (by simp)
      · exact Page.neat_gap hindents.feed _ _
    · have hnone : ∀ kind : TokenKind, kind.isComment = true →
          ¬(kind.isReserved = true ∨ kind = .openParen ∨ kind = .closeParen) := by
        intro kind
        cases kind <;> decide
      exact absurd hk (hnone _ hc)
  | significant hc =>
    refine ⟨Page.neat_gap hindents.feed _ _, fun hk => ?_,
      feed_not_mem_displayText hsound⟩
    change item.token.kind = .blockComment at hk
    rw [hk] at hc
    cases hc

theorem Trace.neat (hindents : ctx.Indents) {items : List Item} (h : Trace ctx s items ps)
    (hsound : ∀ item ∈ items, item.token.Sound ctx.dialect) : ∀ p ∈ ps, NeatPiece p := by
  induction h with
  | nil => exact List.forall_mem_nil _
  | cons adds _ ih =>
    rw [List.forall_mem_cons] at hsound ⊢
    exact ⟨adds.neat hindents hsound.1, ih hsound.2⟩

theorem NeatPiece.widen {q : Piece} (h : NeatPiece p) (hw : Widens p q) : NeatPiece q where
  gap := by
    obtain ⟨n, hgap⟩ := hw.gap
    rw [hgap]
    exact h.gap.append_of_not_mem fun hmem => absurd (List.eq_of_mem_replicate hmem) (by decide)
  comment := by
    rw [hw.text, hw.token]
    exact h.comment
  keyword := by
    rw [hw.text, hw.token]
    exact h.keyword

theorem NeatPiece.trim (h : NeatPiece p) :
    NeatPiece { p with text := dropWhileEnd isWhite p.text } := by
  obtain ⟨w, htext, -⟩ := dropWhileEnd_spec isWhite p.text
  refine ⟨h.gap, fun hk => ?_, fun hk hmem => ?_⟩
  · have hneat := h.comment hk
    rw [htext] at hneat
    exact hneat.left
  · refine h.keyword hk ?_
    rw [htext]
    exact List.mem_append_left w hmem

/-! ## Pieces with the last one trimmed -/

theorem forall_mem_trimLast {motive : Piece → Prop} (h : ∀ p ∈ ps, motive p)
    (htrim : ∀ p, motive p → motive { p with text := dropWhileEnd isWhite p.text }) :
    ∀ p ∈ trimLast ps, motive p := by
  fun_induction trimLast ps with
  | case1 => exact h
  | case2 p =>
    intro q hq
    rw [List.mem_singleton.mp hq]
    exact htrim p (h p (by simp))
  | case3 p q ps ih =>
    rintro r (_ | ⟨_, hr⟩)
    · exact h p (by simp)
    · exact ih (fun r hr => h r (List.mem_cons_of_mem _ hr)) r hr

/-- If every piece ends with no white space when another follows, they all end with none now. -/
theorem trimmed_trimLast (h : (ps.map (·.text)).IsChain fun x _ => Trimmed x) :
    ∀ p ∈ trimLast ps, Trimmed p.text := by
  fun_induction trimLast ps with
  | case1 => exact List.forall_mem_nil _
  | case2 p =>
    intro q hq
    rw [List.mem_singleton.mp hq]
    exact dropWhileEnd_idem _
  | case3 p q ps ih =>
    rw [List.map_cons, List.map_cons, List.isChain_cons_cons] at h
    exact List.forall_mem_cons.mpr ⟨h.1, ih h.2⟩

end SqlFormat.Layout

namespace SqlFormat

open Text Lexer Layout

variable {ctx : Context} {style : Style} {dialect : Dialect} {text : String} {ps qs : List Piece}

/-! ## The pieces of a text -/

/-- A token that another one follows is written without white space at its end. -/
theorem Spells.trimmed (h : Spells ctx text ps) : (ps.map (·.text)).IsChain fun x _ => Trimmed x := by
  have hitems : (Item.ofTokens (tokenize ctx.dialect.lexicon text)).IsChain Item.Follows :=
    Item.isChain_ofTokens (isChain_adjacent ctx.dialect .start 0 text.toList)
  have htokens : (ps.map (·.token)).IsChain fun first _ =>
      first.kind ≠ .lineComment → Tidy first.text.toList := by
    rw [h.trace.tokens, List.isChain_map]
    exact hitems.imp fun _ _ hfollows => hfollows.tidy
  rw [List.isChain_map] at htokens ⊢
  exact htokens.imp_of_mem_imp fun p _ hp _ htidy =>
    trimmed_of_written (h.good p hp).written (h.good p hp).regular htidy

theorem Spells.neat (h : Spells ctx text ps) (hindents : ctx.Indents) : ∀ p ∈ ps, NeatPiece p := by
  refine h.trace.neat hindents fun item hitem => ?_
  exact sound_of_mem ctx.dialect .start 0 text.toList _ (Item.mem_of_mem_ofTokens hitem).1

/-- The tokens of pieces are their blanks, and the pieces with the kinds of their own tokens. -/
theorem Lexer.Relexed.exists_piece {lexicon : Lexicon} {ts : List Token}
    (h : Relexed lexicon ps [] ts) : ∀ t ∈ ts, ∃ p ∈ ps,
      t.kind = .whitespace ∧ t.text.toList = p.gap ∨
        t.kind = p.token.kind ∧ t.text.toList = p.text := by
  generalize htail : ([] : List Char) = tail at h
  have hblank : ∀ {t : Token} {gap : List Char} {pos : Nat}, t ∈ blankTokens gap pos →
      t.kind = .whitespace ∧ t.text.toList = gap := by
    intro t gap pos ht
    unfold blankTokens at ht
    split at ht
    · cases ht
    · rw [List.mem_singleton.mp ht]
      exact ⟨rfl, String.toList_ofList⟩
  induction h with
  | nil =>
    subst htail
    exact List.forall_mem_nil _
  | @cons p ps tail ts pos pos' same rest ih =>
    intro t ht
    rcases List.mem_append.mp ht with ht | ht
    · exact ⟨p, List.mem_cons_self, .inl (hblank ht)⟩
    · rcases List.mem_cons.mp ht with rfl | ht
      · exact ⟨p, List.mem_cons_self, .inr ⟨rfl, String.toList_ofList⟩⟩
      · obtain ⟨q, hq, hcases⟩ := ih htail t ht
        exact ⟨q, List.mem_cons_of_mem _ hq, hcases⟩
  | @last p tail pos pos' key kind isOpen hkey =>
    subst htail
    intro t ht
    refine ⟨p, List.mem_cons_self, ?_⟩
    rcases List.mem_append.mp ht with ht | ht
    · exact .inl (hblank ht)
    · rw [List.mem_singleton.mp ht, List.append_nil]
      exact .inr ⟨rfl, String.toList_ofList⟩

/-! ## Two characters of a text -/

/-- Two characters that stand side by side belong to one part of the text, or one part ends and the next
starts between them. -/
theorem exists_part {α : Type} {f : α → List Char} {parts : List α} {r : Char → Char → Prop}
    (hne : ∀ a ∈ parts, f a ≠ [])
    (hbetween : parts.IsChain fun a b => ∀ c ∈ (f a).getLast?, ∀ d ∈ (f b).head?, r c d)
    {x y : List Char} {c d : Char} (h : parts.flatMap f = x ++ c :: d :: y) (hr : ¬r c d) :
    ∃ before a after x' y', parts = before ++ a :: after ∧ f a = x' ++ c :: d :: y' ∧
      x = before.flatMap f ++ x' := by
  induction parts generalizing x with
  | nil => simp at h
  | cons a parts ih =>
    have hbehind : ∀ x', parts.flatMap f = x' ++ c :: d :: y →
        ∃ before b after x₁ y₁, a :: parts = before ++ b :: after ∧ f b = x₁ ++ c :: d :: y₁ ∧
          f a ++ x' = before.flatMap f ++ x₁ := by
      intro x' hx'
      obtain ⟨before, b, after, x₁, y₁, rfl, hb, rfl⟩ :=
        ih (fun b hb => hne b (List.mem_cons_of_mem _ hb)) hbetween.tail hx'
      exact ⟨a :: before, b, after, x₁, y₁, rfl, hb, by simp⟩
    rw [List.flatMap_cons, List.append_eq_append_iff] at h
    rcases h with ⟨x', rfl, h⟩ | ⟨rest, ha, h⟩
    · exact hbehind x' h
    · cases rest with
      | nil =>
        obtain ⟨before, b, after, x₁, y₁, hparts, hb, hx⟩ := hbehind [] h.symm
        rw [ha, List.append_nil, List.append_nil] at hx
        exact ⟨before, b, after, x₁, y₁, hparts, hb, hx⟩
      | cons c' rest =>
        rw [List.cons_append] at h
        obtain ⟨rfl, hflat⟩ := List.cons.inj h
        cases rest with
        | nil =>
          -- the first part ends with `c`, so the next one starts with `d`
          cases parts with
          | nil => cases hflat
          | cons b parts =>
            have hhead := congrArg List.head? hflat
            rw [List.nil_append, List.flatMap_cons,
              List.head?_append_of_ne_nil _ (hne b (by simp))] at hhead
            have hlast : (f a).getLast? = some c := by rw [ha, List.getLast?_concat]
            exact absurd (hbetween.rel c hlast d hhead.symm) hr
        | cons d' rest =>
          rw [List.cons_append] at hflat
          obtain ⟨rfl, -⟩ := List.cons.inj hflat
          exact ⟨[], a, parts, x, rest, rfl, ha, rfl⟩

theorem byteLength_flatMap_text (tokens : List Token) :
    byteLength (tokens.flatMap (·.text.toList)) = (tokens.map (·.text.utf8ByteSize)).sum := by
  induction tokens with
  | nil => rfl
  | cons t tokens ih =>
    rw [List.flatMap_cons, byteLength_append, ih, byteLength_eq, String.ofList_toList, List.map_cons,
      List.sum_cons]

/-! ## The formatted text -/

section Output

variable {out : String}

/-- A token of the output is the text of a piece, if it is not white space. -/
theorem Spells.exists_piece (h : Spells ctx text ps) (hw : List.Forall₂ Widens ps qs)
    (hout : out.toList = dropWhileEnd isWhite (spell qs [])) {t : Token}
    (ht : t ∈ tokenize ctx.dialect.lexicon out) (hk : t.kind ≠ .whitespace) :
    ∃ p ∈ trimLast qs, t.kind = p.token.kind ∧ t.text.toList = p.text := by
  obtain ⟨p, hp, ⟨hwhite, -⟩ | hpiece⟩ := (h.relexed_widened hw hout).exists_piece t ht
  · exact absurd hwhite hk
  · exact ⟨p, hp, hpiece⟩

/-- A line of the output that ends with a token does not end with white space. -/
theorem Spells.neat_between (h : Spells ctx text ps) (hw : List.Forall₂ Widens ps qs)
    (hout : out.toList = dropWhileEnd isWhite (spell qs [])) :
    (tokenize ctx.dialect.lexicon out).IsChain fun a b => ∀ c ∈ a.text.toList.getLast?,
      ∀ d ∈ b.text.toList.head?, d = '\n' → isWhite c = true → c = '\n' := by
  have htexts : qs.map (·.text) = ps.map (·.text) := map_eq_of_widens hw fun _ text => text
  have htrimmed : ∀ q ∈ trimLast qs, Trimmed q.text := trimmed_trimLast (htexts ▸ h.trimmed)
  refine (isChain_follows ctx.dialect .start 0 out.toList).imp_of_mem_imp ?_
  rintro a b ha hb hfollows c hc _ hd rfl hwhite
  have hblank : b.kind = .whitespace := by
    by_contra hk
    obtain ⟨d, ds, htext, hnot⟩ := (sound_of_mem ctx.dialect .start 0 out.toList b hb).head hk
    rw [htext] at hd
    obtain rfl := Option.some.inj hd
    cases hnot
  obtain ⟨p, hp, -, htext⟩ := h.exists_piece hw hout ha fun hk => hfollows.1 ⟨hk, hblank⟩
  rw [htext] at hc
  rw [(htrimmed p hp).not_white hc] at hwhite
  cases hwhite

/-- Only literals hold lines that end with white space. -/
theorem Spells.literal_of_not_neat (h : Spells ctx text ps) (hw : List.Forall₂ Widens ps qs)
    (hindents : ctx.Indents) (hout : out.toList = dropWhileEnd isWhite (spell qs [])) {t : Token}
    (ht : t ∈ tokenize ctx.dialect.lexicon out) (hneat : ¬NeatLines t.text.toList) :
    t.kind = .string ∨ t.isQuotedName = true := by
  have hfeed : '\n' ∈ t.text.toList := by
    by_contra hmem
    exact hneat (neatLines_of_not_mem hmem)
  have hpieces : ∀ q ∈ trimLast qs, NeatPiece q ∧ q.token.kind ≠ .whitespace := by
    refine forall_mem_trimLast (fun q hq => ?_) fun _ hq => ⟨hq.1.trim, hq.2⟩
    obtain ⟨p, hp, hpq⟩ := exists_mem_left hw hq
    exact ⟨(h.neat hindents p hp).widen hpq, (h.good_widened hw q hq).kind⟩
  obtain ⟨p, hp, hpiece⟩ := (h.relexed_widened hw hout).exists_piece t ht
  obtain ⟨hp, hkind⟩ := hpieces p hp
  rcases hpiece with ⟨-, htext⟩ | ⟨hsame, htext⟩
  · exact absurd (htext ▸ hp.gap) hneat
  rcases spansLines_of_mem ctx.dialect .start 0 out.toList t ht hfeed with
    hwhite | hcomment | hstring | hquoted | hkeyword
  · exact absurd (hsame.symm.trans hwhite) hkind
  · exact absurd (htext ▸ hp.comment (hsame.symm.trans hcomment)) hneat
  · exact .inl hstring
  · exact .inr hquoted
  · have hword : t.kind.isReserved = true ∨ t.kind = .openParen ∨ t.kind = .closeParen := by
      simp only [Token.isKeyword, Bool.or_eq_true, Bool.and_eq_true, beq_iff_eq] at hkeyword
      tauto
    exact absurd (htext ▸ hfeed) (hp.keyword (hsame ▸ hword))

end Output

theorem Style.indents {style : Style} (hindent : ∀ c ∈ style.indent.toList, c = ' ' ∨ c = '\t')
    (hcomments : style.preserveCommentIndent = false) (dialect : Dialect) :
    (style.context dialect).Indents where
  white c hc := by
    rcases hindent c hc with rfl | rfl <;> decide
  feed hmem := by
    rcases hindent _ hmem with h | h <;> exact absurd h (by decide)
  comments := hcomments

theorem trimmed_of_format? {out : String} (h : format? dialect style text = some out) :
    Trimmed out.toList := by
  rw [format?_eq_layout?] at h
  obtain ⟨lines, -, rfl⟩ := Option.map_eq_some_iff.mp h
  rw [render, trimEnd, String.toList_ofList]
  exact dropWhileEnd_idem _

/-- **No line ends with white space**: a formatted text has no white space at its end, and, where no token of
the source ends with white space other than blanks and alignment finds its anchors in order, a line that
ends with white space ends within a string or a quoted placeholder name. -/
theorem no_trailing_space (dialect : Dialect) {style : Style} (hstyle : style.unaligned.Plain)
    (hcomments : style.preserveCommentIndent = false) (text : String) :
    (∀ out, format? dialect style text = some out → Trimmed out.toList) ∧
    (InOrder dialect style text → ∃ out, format? dialect style text = some out ∧
      (EndsBlank dialect text → ∀ x c y, out.toList = x ++ c :: '\n' :: y →
        isWhite c = true → c ≠ '\n' →
        ∃ t ∈ tokenize dialect.lexicon out, (t.kind = .string ∨ t.isQuotedName = true) ∧
          t.pos ≤ byteLength x ∧
          byteLength (x ++ [c, '\n']) ≤ t.pos + byteLength t.text.toList)) := by
  refine ⟨fun out => trimmed_of_format?, fun horder => ?_⟩
  obtain ⟨out, hformat⟩ : ∃ out, format? dialect style text = some out := by
    obtain ⟨lines, -, -, hformat⟩ := exists_format dialect style text horder.orderly
    exact ⟨_, hformat⟩
  refine ⟨out, hformat, fun hends x c y hsplit hwhite hfeed => ?_⟩
  obtain ⟨ps, qs, out', hps, hwidens, hformat', hout⟩ := exists_aligned_spelling hstyle hends horder
  obtain rfl : out' = out := Option.some.inj (hformat'.symm.trans hformat)
  have hne : ∀ t ∈ tokenize dialect.lexicon out', t.text.toList ≠ [] := fun t ht hnil =>
    text_ne_empty dialect .start 0 out'.toList t ht (String.toList_eq_nil_iff.mp hnil)
  obtain ⟨before, t, after, x', y', htokens, htext, rfl⟩ := exists_part hne
    (hps.neat_between hwidens hout) ((flatMap_text dialect .start 0 out'.toList).trans hsplit)
    fun hneat => hfeed (hneat rfl hwhite)
  have ht : t ∈ tokenize dialect.lexicon out' := by
    rw [htokens]
    exact List.mem_append_right _ List.mem_cons_self
  have hindents := style.indents hstyle.indent hcomments dialect
  refine ⟨t, ht, hps.literal_of_not_neat hwidens hindents hout ht fun hneat => ?_, ?_⟩
  · rw [htext] at hneat
    exact hfeed (hneat.eq_feed hwhite)
  · have hpos := pos_eq dialect .start 0 out'.toList before t after htokens
    rw [Nat.zero_add, ← byteLength_flatMap_text] at hpos
    rw [hpos, htext, List.append_assoc]
    simp only [byteLength_append, byteLength]
    omega

/-- A string that holds a line with a blank at its end. -/
theorem no_trailing_space_string :
    ∃ out, format? .postgresql .standard "SELECT 'a \n', b" = some out ∧
      out.toList = "SELECT\n  'a".toList ++ ' ' :: '\n' :: "',\n  b".toList ∧
      ∃ t ∈ tokenize Dialect.postgresql.lexicon out,
        (t.kind = .string ∨ t.isQuotedName = true) ∧ t.pos ≤ 11 := by
  have hstyle : Style.standard.unaligned.Plain := Style.standard_plain
  obtain ⟨out, hformat, hlines⟩ :=
    (no_trailing_space .postgresql hstyle rfl "SELECT 'a \n', b").2 (.inl ⟨rfl, rfl⟩)
  have hout : format? .postgresql .standard "SELECT 'a \n', b" =
      some "SELECT\n  'a \n',\n  b" := by decide +kernel
  obtain rfl := Option.some.inj (hformat.symm.trans hout)
  obtain ⟨t, ht, hkind, hpos, -⟩ := hlines (endsBlank_of_forall (forall_mem_of_all (by decide)) _)
    "SELECT\n  'a".toList ' ' "',\n  b".toList (by decide) (by decide) (by decide)
  exact ⟨_, hformat, by decide, t, ht, hkind, hpos⟩

/-- A word of white space that is no blank leaves a line of its margin. -/
theorem format?_no_break_space :
    format? .standard .standard "SELECT \u00a0 FROM t" = some "SELECT\n  \nFROM\n  t" ∧
      ∀ t ∈ tokenize Dialect.standard.lexicon "SELECT\n  \nFROM\n  t",
        t.kind ≠ .string ∧ t.isQuotedName = false := by
  decide +kernel

end SqlFormat

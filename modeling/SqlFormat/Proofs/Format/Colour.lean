import Mathlib
import SqlFormat.Proofs.Format.Tokens
import SqlFormat.Proofs.Layout.Anchors
import SqlFormat.Proofs.Layout.TwinAlignment
import SqlFormat.Proofs.Text.Reindent

/-!
# Formatting in colour

A text that is formatted in colour is the plain formatted text with control sequences in it. Rendering is
the one step that could tell the two apart: it trims white space from the ends of lines, and what stands
before the last control sequence of a line is not at its end. So no coloured token may end with white
space, and only a literal that is left open, or a name beyond ASCII, could.

Results: `strip_format`.
-/

namespace SqlFormat

open Text Lexer Layout

/-- No string, block comment or named placeholder of the text ends with white space. -/
def EndsFirm (dialect : Dialect) (text : String) : Prop :=
  ∀ t ∈ tokenize dialect.lexicon text, canBeOpen t.kind = true → Trimmed t.text.toList

instance (t : List Char) : Decidable (Trimmed t) := inferInstanceAs (Decidable (_ = _))

instance (dialect : Dialect) (text : String) : Decidable (EndsFirm dialect text) :=
  inferInstanceAs (Decidable (∀ t ∈ tokenize dialect.lexicon text, _ → _))

/-! ## What is written in colour -/

/-- What is asked of a token, to be told from its colour. -/
structure Token.Firm (dialect : Dialect) (token : Token) : Prop extends token.Sound dialect where
  ne : token.text ≠ ""
  escape : '\x1b' ∉ token.text.toList
  ends : token.kind ≠ .lineComment → token.isKeyword = false →
    (Ansi.attributes? token.kind).isSome = true → Trimmed token.text.toList

theorem kind_of_coloured {kind : TokenKind} (h : (Ansi.attributes? kind).isSome = true) :
    kind.isReserved = true ∨ kind = .lineComment ∨ canBeOpen kind = true ∨
      kind = .indexedPlaceholder ∨ kind = .number := by
  revert h
  cases kind <;> decide

theorem firm_of_mem {dialect : Dialect} {text : String} (hescape : '\x1b' ∉ text.toList)
    (hends : EndsFirm dialect text) : ∀ t ∈ tokenize dialect.lexicon text, t.Firm dialect := by
  intro t ht
  refine ⟨sound_of_mem dialect .start 0 text.toList t ht,
    text_ne_empty dialect .start 0 text.toList t ht, fun hmem => hescape ?_, fun hline hkey hcolour => ?_⟩
  · rw [← flatMap_text dialect .start 0 text.toList, List.mem_flatMap]
    exact ⟨t, ht, hmem⟩
  · rcases kind_of_coloured hcolour with hreserved | hk | hopen | hkind
    · rw [Token.isKeyword, hreserved, Bool.true_or] at hkey
      cases hkey
    · exact absurd hk hline
    · exact hends t ht hopen
    · have hwhite := not_white_of_mem dialect .start 0 text.toList t ht hkind
      cases hlast : t.text.toList.getLast? with
      | none => rw [List.getLast?_eq_none_iff.mp hlast]; rfl
      | some c => exact trimmed_of_getLast? hlast (hwhite c (List.mem_of_getLast? hlast))

variable {dialect : Dialect} {ctx : Context} {token : Token}

theorem good_keyword (h : token.Firm ctx.dialect) (hkey : token.isKeyword = true) :
    Span.Good ⟨token.kind, State.displayText ctx token⟩ := by
  have hx := respaced_keyword h.toSound hkey ctx.keywordCase
  have hdisplay : State.displayText ctx token =
      ctx.keywordCase.apply (normalizePhrase token.text) := by
    rw [State.displayText, if_pos hkey]
  rw [hdisplay]
  set x := ctx.keywordCase.apply (normalizePhrase token.text)
  obtain ⟨-, ws, -, hphrased, -⟩ := hx.phrased
  refine ⟨fun hmem => ?_, fun _ => ⟨fun hnil => ?_, hphrased.tidy.trimmed fun c hc hw => ?_⟩⟩
  · rcases hx.chars _ hmem with h | h <;> exact absurd h (by decide)
  · have hhead := hx.head.2
    rw [show (x : String) = "" from hnil] at hhead
    cases hhead
  · rcases hx.chars c (List.mem_of_getLast? hc) with hkey | hblank
    · rw [not_isWhite_of_isKeywordChar hkey] at hw
      cases hw
    · exact hblank

theorem good_displayText (h : token.Firm ctx.dialect) (hcomment : token.kind.isComment = false) :
    Span.Good ⟨token.kind, State.displayText ctx token⟩ := by
  cases hkey : token.isKeyword with
  | true => exact good_keyword h hkey
  | false =>
    have hline : token.kind ≠ .lineComment := by
      intro hk
      rw [hk] at hcomment
      cases hcomment
    rw [State.displayText, if_neg (by simp [hkey])]
    exact ⟨h.escape, fun hcolour => ⟨h.ne, h.ends hline hkey hcolour⟩⟩

theorem good_commentText (hindent : '\x1b' ∉ ctx.style.indent.toList) (h : token.Firm ctx.dialect)
    (hcomment : token.kind.isComment = true) (indent : Nat) :
    Span.Good ⟨token.kind, State.commentText ctx token indent⟩ := by
  have hkinds : token.kind = .lineComment ∨ token.kind = .blockComment := by
    revert hcomment
    cases token.kind <;> decide
  obtain ⟨c, hc, hwhite⟩ := h.opening (hkinds.imp_right fun hk => by rw [hk]; rfl)
  unfold State.commentText
  rcases hkinds with hk | hk
  · -- a line comment is trimmed
    obtain ⟨cs, htext⟩ := List.head?_eq_some_iff.mp hc
    have hwritten : (trimEnd token.text).toList = dropWhileEnd isWhite token.text.toList := by
      rw [trimEnd, String.toList_ofList]
    rw [if_pos (by simp [hk])]
    refine ⟨fun hmem => h.escape ?_, fun _ => ⟨fun hnil => ?_, ?_⟩⟩
    · obtain ⟨w, hsplit, -⟩ := dropWhileEnd_spec isWhite token.text.toList
      rw [hsplit]
      exact List.mem_append_left w (hwritten ▸ hmem)
    · rw [← String.toList_eq_nil_iff, hwritten, htext, dropWhileEnd_cons hwhite] at hnil
      cases hnil
    · show Trimmed (trimEnd token.text).toList
      rw [hwritten]
      exact dropWhileEnd_idem _
  · have htrimmed : Trimmed token.text.toList := by
      refine h.ends (by simp [hk]) ?_ (by rw [hk]; rfl)
      simp [Token.isKeyword, hk, TokenKind.isReserved]
    rw [if_neg (by simp [hk])]
    split
    · exact ⟨h.escape, fun _ => ⟨h.ne, htrimmed⟩⟩
    · refine ⟨fun hmem => ?_, fun _ => ⟨reindent_ne_empty _ _ hc hwhite, trimmed_reindent _ _ htrimmed⟩⟩
      rcases mem_reindent hmem with hmem | hmem | hmem | hmem
      · exact h.escape hmem
      · exact hindent hmem
      · exact absurd hmem (by decide)
      · exact absurd hmem (by decide)

theorem inked_ofTokens {tokens : List Token} (hindent : '\x1b' ∉ ctx.style.indent.toList)
    (h : ∀ t ∈ tokens, t.Firm ctx.dialect) : ∀ item ∈ Item.ofTokens tokens, item.Inked ctx := by
  intro item hitem
  have hfirm := h _ (Item.mem_of_mem_ofTokens hitem).1
  exact ⟨good_displayText hfirm, good_commentText hindent hfirm⟩

/-! ## Rendering -/

namespace Layout

open SqlFormat.Span

variable {kinds : List AnchorKind} {c p : Line} {cs ps : List Line}

/-- A rendered line, in colour and without. -/
theorem Line.Twinned.exists_render (h : Line.Twinned kinds c p) {unit : String}
    (hunit : '\x1b' ∉ unit.toList) : ∃ spans : List Span, (∀ s ∈ spans, s.Good) ∧
      (renderLine unit c).toList = paintAll spans ∧ (renderLine unit p).toList = plainAll spans := by
  obtain ⟨-, spans, hline⟩ := h
  have hfeed : (blank "\n").Good := good_blank (by simp)
  unfold renderLine
  rw [hline.isEmpty_eq]
  split
  · exact ⟨[blank "\n"], by simpa using hfeed, rfl, rfl⟩
  · obtain ⟨rest, hrest, hpaint, hplain⟩ := exists_trimmed hline.good
    have hmargin : (blank (String.join (List.replicate c.indent unit))).Good := by
      refine good_blank fun hmem => ?_
      exact hunit (forall_mem_margin (fun _ hd => hd) c.indent _ hmem)
    refine ⟨blank (String.join (List.replicate c.indent unit)) :: (rest ++ [blank "\n"]), ?_, ?_, ?_⟩
    · intro s hs
      simp only [List.mem_cons, List.mem_append, List.not_mem_nil, or_false] at hs
      rcases hs with rfl | hs | rfl
      · exact hmargin
      · exact hrest s hs
      · exact hfeed
    · rw [paintAll_cons, paintAll_append, paintAll_singleton, painted_blank, painted_blank, ← hpaint,
        ← hline.coloured]
      simp [trimEnd]
    · rw [plainAll_cons, plainAll_append, plainAll_singleton, ← hplain, ← hline.plain, hline.indent]
      simp [trimEnd, blank]

/-- **Colour does not change what is rendered.** -/
theorem strip_render {unit : String} (hunit : '\x1b' ∉ unit.toList)
    (h : List.Forall₂ (Line.Twinned kinds) cs ps) :
    Ansi.strip (render unit cs) = render unit ps := by
  have hall : ∃ spans : List Span, (∀ s ∈ spans, s.Good) ∧
      (String.join (cs.map (renderLine unit))).toList = paintAll spans ∧
      (String.join (ps.map (renderLine unit))).toList = plainAll spans := by
    induction h with
    | nil => exact ⟨[], by simp, rfl, rfl⟩
    | cons hline _ ih =>
      obtain ⟨spans, hgood, hpaint, hplain⟩ := hline.exists_render hunit
      obtain ⟨rest, hrest, hpaint', hplain'⟩ := ih
      refine ⟨spans ++ rest, fun s hs => ?_, ?_, ?_⟩
      · exact (List.mem_append.mp hs).elim (hgood s) (hrest s)
      · rw [String.toList_join] at hpaint' ⊢
        rw [paintAll_append, ← hpaint, ← hpaint', List.map_cons, List.flatMap_cons]
      · rw [String.toList_join] at hplain' ⊢
        rw [plainAll_append, ← hplain, ← hplain', List.map_cons, List.flatMap_cons]
  obtain ⟨spans, hgood, hpaint, hplain⟩ := hall
  obtain ⟨rest, hrest, hpaint', hplain'⟩ := exists_trimmed hgood
  rw [Ansi.strip, render, render, trimEnd, trimEnd, hpaint, hplain, hpaint', hplain',
    String.toList_ofList, visible_painted hrest]

end Layout

/-! ## Formatting -/

theorem InOrder.orderly_uncoloured {style : Style} {text : String}
    (h : InOrder dialect style.uncoloured text) (hparams : style.params.isEmpty = true) :
    ∀ line ∈ linesOf (.uncoloured style dialect) (tokenize dialect.lexicon text), line.Orderly := by
  have hparams' : style.uncoloured.params.isEmpty = true := hparams
  have horderly := h.orderly
  unfold linesOfText at horderly
  rwa [map_substitute_of_isEmpty hparams'] at horderly

/-- **Colour is transparent**: what is formatted in colour is the plain formatted text once the control
sequences are removed. This holds where alignment finds its anchors in order, and where no string,
block comment or named placeholder ends with white space. -/
theorem strip_format (dialect : Dialect) {style : Style} {text : String}
    (hparams : style.params.isEmpty = true) (htext : '\x1b' ∉ text.toList)
    (hindent : '\x1b' ∉ style.indent.toList) (hends : EndsFirm dialect text)
    (horder : InOrder dialect style.uncoloured text) :
    ∃ coloured plain, format? dialect style.coloured text = some coloured ∧
      format? dialect style.uncoloured text = some plain ∧ Ansi.strip coloured = plain := by
  have hinked : ∀ item ∈ Item.ofTokens (tokenize dialect.lexicon text),
      item.Inked (.uncoloured style dialect) :=
    inked_ofTokens hindent (firm_of_mem htext hends)
  have hlines := twin_linesOf hinked
  have htwinned : List.Forall₂ (Line.Twinned [])
      (linesOf (.coloured style dialect) (tokenize dialect.lexicon text))
      (linesOf (.uncoloured style dialect) (tokenize dialect.lexicon text)) := by
    refine List.Forall₂.flip (List.Forall₂.imp (fun _ _ hline => hline) ?_)
    exact (List.forall₂_and_left _ _).mpr ⟨horder.orderly_uncoloured hparams, hlines.flip⟩
  obtain ⟨coloured, plain, hcoloured, hplain, htwin⟩ :=
    Layout.Alignment.exists_alignAll_twin style htwinned
  have hparams' : style.coloured.params.isEmpty = true ∧ style.uncoloured.params.isEmpty = true :=
    ⟨hparams, hparams⟩
  refine ⟨render style.indent coloured, render style.indent plain, ?_, ?_, strip_render hindent htwin⟩
  · rw [format?_eq hparams'.1]
    exact congrArg (Option.map (render style.indent)) hcoloured
  · rw [format?_eq hparams'.2]
    exact congrArg (Option.map (render style.indent)) hplain

/-- Aliases are lined up behind strings and comments in colour. -/
theorem strip_format_aliases :
    let style : Style := { Style.standard with alignColumns := true }
    let text := "select 'a\n ' as b, /* c\n d */ 22 as ccc -- e  \nfrom t"
    ∃ coloured plain, format? .postgresql style.coloured text = some coloured ∧
      format? .postgresql style.uncoloured text = some plain ∧ Ansi.strip coloured = plain :=
  strip_format .postgresql rfl (by decide) (by decide) (by decide +kernel) (.inl ⟨rfl, rfl⟩)

/-- A string that is left open keeps its white space in colour, and loses it without. -/
theorem strip_format_open :
    let coloured := format? .standard Style.standard.coloured "SELECT 'a  "
    coloured = some "\x1b[0m\x1b[1m\x1b[34mSELECT\x1b[0m\n  \x1b[0m\x1b[32m'a  \x1b[0m" ∧
      coloured.map Ansi.strip = some "SELECT\n  'a  " ∧
      format? .standard Style.standard.uncoloured "SELECT 'a  " = some "SELECT\n  'a" := by
  decide +kernel

end SqlFormat

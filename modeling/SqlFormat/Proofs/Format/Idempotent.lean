import Mathlib
import SqlFormat.Proofs.Format.Aligned
import SqlFormat.Proofs.Layout.Rerun
import SqlFormat.Proofs.Layout.Tail

/-!
# Formatting what was formatted

A formatted text is spelt out from the tokens of its source. When it is formatted again, layout reads them
back from their pieces and writes the lines that it wrote, so that the text stays as it is.

For one kind of token this needs the source to be written as layout writes it: the words that close a block
count, for the width of a group, with all the blanks between them.

Results: `format_format`, `format?_gap_in_closer` (a gap in `END IF` that keeps a group from its line).
-/

namespace SqlFormat

open Text Lexer Layout

/-- The words of every closer have one blank between them. -/
def ClosersNormal (dialect : Dialect) (text : String) : Prop :=
  ∀ t ∈ tokenize dialect.lexicon text, t.kind = .closeParen →
    (normalizePhrase t.text).length = t.text.length

instance (dialect : Dialect) (text : String) : Decidable (ClosersNormal dialect text) :=
  inferInstanceAs (Decidable (∀ t ∈ tokenize dialect.lexicon text, t.kind = .closeParen →
    (normalizePhrase t.text).length = t.text.length))

variable {ctx : Context} {text out : String} {ps qs : List Piece}

/-- The groups of a text fit into the room that those of its source fit into. -/
theorem Spells.fitsAlike (h : Spells ctx text ps) (hw : List.Forall₂ Widens ps qs)
    (hreread : Item.Reread none (trimLast qs) (Item.ofTokens (tokenize ctx.dialect.lexicon out)))
    (hclosers : ctx.style.maxLineLength = 0 ∨ ClosersNormal ctx.dialect text) :
    List.Forall₂ (Item.FitsAlike ctx) (Item.ofTokens (tokenize ctx.dialect.lexicon text))
      (Item.ofTokens (tokenize ctx.dialect.lexicon out)) := by
  have hgood := h.good_widened hw
  have htokens : qs.map (·.token) =
      (Item.ofTokens (tokenize ctx.dialect.lexicon text)).map (·.token) := by
    rw [Item.map_token_ofTokens, map_eq_of_widens hw fun token _ => token, h.tokens]
    rfl
  have hmem : ∀ q ∈ qs, q.token ∈ tokenize ctx.dialect.lexicon text := by
    intro q hq
    obtain ⟨item, hitem, htoken⟩ := List.mem_map.mp (htokens ▸ List.mem_map_of_mem hq)
    exact htoken ▸ (Item.mem_of_mem_ofTokens hitem).1
  have houtlines := hreread.outlines hgood
  rw [htokens] at houtlines
  refine fitsAlike_ofTokens houtlines (hclosers.imp_right fun hnormal => ?_)
  rw [← htokens]
  exact hreread.widths hgood (fun q hq => opens_of_mem _ _ _ _ _ (hmem q hq))
    (fun item hitem => have hmem := (Item.mem_of_mem_ofTokens hitem).1
      ⟨sound_of_mem _ _ _ _ _ hmem, opens_of_mem _ _ _ _ _ hmem⟩)
    fun q hq => hnormal q.token (hmem q hq)

/-- Layout writes the lines of a text again over any items that could be read back from its pieces. -/
theorem Spells.lines_reread (h : Spells ctx text ps) (hplain : ctx.Plain)
    (hfeed : '\n' ∉ ctx.style.indent.toList) (hends : EndsBlank ctx.dialect text)
    (hw : Widened none ps qs) {others : List Item} (hreread : Item.Reread none qs others)
    (hfits : List.Forall₂ (Item.FitsAlike ctx)
      (Item.ofTokens (tokenize ctx.dialect.lexicon text)) others) :
    (State.start.run ctx others).page.lines = linesOf ctx (tokenize ctx.dialect.lexicon text) := by
  have hsound : ∀ item ∈ Item.ofTokens (tokenize ctx.dialect.lexicon text), item.Sound ctx :=
    Item.sound_ofTokens fun t ht => ⟨sound_of_mem ctx.dialect .start 0 text.toList t ht, hends t ht⟩
  have hadjacent := isChain_adjacent ctx.dialect .start 0 text.toList
  refine Layout.lines_reread hplain hfeed h.trace (shows_start ctx) hsound
    (fun item hitem => paired_of_mem _ _ _ _ _ (Item.mem_of_mem_ofTokens hitem).1) (fun item hitem => ?_)
    (Item.isChain_ofTokens hadjacent) hw hreread hfits (.level (b := none) .none rfl)
  have hfirst := hsound item (List.mem_of_head? hitem)
  refine ⟨⟨hfirst.regular, hfirst.kind, by simp, hfirst.endsLine, by simp⟩, fun _ hc => ?_, by simp,
    by simp⟩
  exact Item.startsLine_head hadjacent item hitem hc

/-- **What was laid out is laid out again as it was**, up to white space at the end of the last line. -/
theorem Spells.lines_again (h : Spells ctx text ps) (hplain : ctx.Plain)
    (hfeed : '\n' ∉ ctx.style.indent.toList) (hends : EndsBlank ctx.dialect text)
    (hw : Widened none ps qs) (hout : out.toList = dropWhileEnd isWhite (spell qs []))
    (hclosers : ctx.style.maxLineLength = 0 ∨ ClosersNormal ctx.dialect text) :
    List.Forall₂ Line.Tailed (linesOf ctx (tokenize ctx.dialect.lexicon out))
      (linesOf ctx (tokenize ctx.dialect.lexicon text)) := by
  have hgood := h.good_widened hw.forall₂
  have hrelexed := h.relexed_widened hw.forall₂ hout
  have hreread := Item.reread_ofTokens hrelexed (h.kind_trimLast hw.forall₂)
  have hfits := h.fitsAlike hw.forall₂ hreread hclosers
  have hanchored := anchored_linesOf ctx (tokenize ctx.dialect.lexicon out)
  rw [linesOf] at hanchored ⊢
  rcases hreread.exists_untrimmed with ⟨rfl, hnil⟩ | ⟨init, x, q, hitems, hq, hkind, htext, hreread⟩
  · rw [hnil] at hfits hanchored ⊢
    rw [← h.lines_reread hplain hfeed hends hw .nil hfits]
    exact List.forall₂_same.mpr fun line hline => (hanchored line hline).tailed
  · have hmem : x ∈ Item.ofTokens (tokenize ctx.dialect.lexicon out) := by
      rw [hitems]
      simp
    have hx := sound_of_mem ctx.dialect .start 0 out.toList _ (Item.mem_of_mem_ofTokens hmem).1
    rw [hitems] at hfits hanchored ⊢
    rw [← h.lines_reread hplain hfeed hends hw hreread (fitsAlike_withText hfits _)]
    obtain ⟨w, hsplit, hwhite⟩ := dropWhileEnd_spec isWhite q.text
    by_cases hopen : canBeOpen x.token.kind = true
    · refine (tailed_run hplain init hx hopen hwhite ?_).forall₂_lines hanchored
      rw [String.toList_ofList, htext, String.toList_ofList]
      exact hsplit
    · -- only literals and comments may end with white space
      have hq := hgood q (List.mem_of_mem_getLast? hq)
      have htrimmed : Trimmed q.text := trimmed_of_written hq.written hq.regular fun hline =>
        hq.tidy hline (by rw [← hkind]; simpa using hopen)
      have hsame : x.withText (String.ofList q.text) = x := by
        rw [htrimmed] at htext
        rw [Item.withText, ← htext]
      rw [hsame]
      exact List.forall₂_same.mpr fun line hline => (hanchored line hline).tailed

/-- **Idempotence**: a formatted text stays as it is when it is formatted again, if no token of its source
ends with white space other than blanks, alignment finds its anchors in order, and the closers have one
blank between their words or lines are not limited. -/
theorem format_format (dialect : Dialect) {style : Style} (hstyle : style.unaligned.Plain)
    (hends : EndsBlank dialect text) (horder : InOrder dialect style text)
    (hclosers : style.maxLineLength = 0 ∨ ClosersNormal dialect text) :
    ∃ out, format? dialect style text = some out ∧ format? dialect style out = some out := by
  have hplain : (style.context dialect).Plain := style.context_plain hstyle.color hstyle.indent dialect
  have hparams : style.params.isEmpty = true := hstyle.params
  have hfeed : '\n' ∉ style.indent.toList := fun hmem => by
    rcases hstyle.indent _ hmem with h | h <;> cases h
  obtain ⟨ps, qs, out, hps, hw, hformat, hout⟩ := exists_widened_spelling hstyle hends horder
  refine ⟨out, hformat, ?_⟩
  have hlines : List.Forall₂ Line.Tailed (linesOf (style.context dialect) (tokenize dialect.lexicon out))
      (linesOf (style.context dialect) (tokenize dialect.lexicon text)) :=
    hps.lines_again hplain hfeed hends hw hout hclosers
  rw [format?_eq hparams] at hformat ⊢
  obtain ⟨aligned, haligned, hrender⟩ := Option.map_eq_some_iff.mp hformat
  have hrel := Alignment.alignAll?_tailed style hlines
  rw [haligned] at hrel
  generalize Alignment.alignAll? style (linesOf _ (tokenize dialect.lexicon out)) = again at hrel ⊢
  cases hrel with
  | some htailed => rw [Option.map_some, ← render_tailed htailed, hrender]

/-- A group that fits on its line, one that does not, and a string that is not closed. -/
theorem format_format_groups :
    ∃ out, format? .postgresql { Style.standard with maxLineLength := 14, alignColumns := true }
        "select f(a) as b, (c end if dd) as e, 'x  " = some out ∧
      format? .postgresql { Style.standard with maxLineLength := 14, alignColumns := true } out =
        some out :=
  have hstyle : { Style.standard with maxLineLength := 14, alignColumns := true }.unaligned.Plain :=
    ⟨rfl, rfl, rfl, rfl, rfl, Style.standard_plain.indent⟩
  format_format .postgresql hstyle (endsBlank_of_forall (forall_mem_of_all (by decide)) _)
    (.inl ⟨rfl, rfl⟩) (.inr (by decide +kernel))

/-- The blanks in a closer may make a group too wide for its line, which fits when they are gone. -/
theorem format?_gap_in_closer :
    ∃ out, format? .postgresql { Style.standard with maxLineLength := 14 } "(a END    IF b)" = some out ∧
      format? .postgresql { Style.standard with maxLineLength := 14 } out ≠ some out :=
  ⟨"(\n  a END IF b\n)", by decide +kernel, by decide +kernel⟩

end SqlFormat

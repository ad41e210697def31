import Mathlib
import SqlFormat.Proofs.Format.Tokens
import SqlFormat.Proofs.Layout.Bare
import SqlFormat.Proofs.Layout.Sheet

/-!
# Alignment keeps the tokens

Where the anchors of every line stand in order, alignment widens blanks between tokens and does
nothing else. So an aligned text is cut into the same tokens as the text that is not aligned.

Results: `exists_widened_spelling` (the spelling that an aligned text is), `align_keeps_tokens`.
-/

namespace SqlFormat

open Text Lexer Layout

/-! ## Wider blanks -/

/-- More spaces may stand wherever blanks may. -/
theorem Joins.widen {dialect : Dialect} {before : Option Token} {gap : List Char} {token : Token}
    (h : Joins dialect before gap token) (n : Nat) :
    Joins dialect before (gap ++ List.replicate n ' ') token where
  blank c hc := by
    rcases List.mem_append.mp hc with hc | hc
    · exact h.blank c hc
    · rw [List.eq_of_mem_replicate hc]
      decide
  lineEnd a ha hk := by
    rw [List.head?_append, h.lineEnd a ha hk]
    rfl
  touch hgap := h.touch (List.append_eq_nil_iff.mp hgap).1

theorem Chained.widen {dialect : Dialect} {before : Option Token} {ps qs : List Piece}
    (h : Chained dialect before ps) (hw : List.Forall₂ Widens ps qs) : Chained dialect before qs := by
  induction hw generalizing before with
  | nil => exact .nil
  | @cons p q ps qs hpq _ ih =>
    cases h with
    | cons joins rest =>
      obtain ⟨n, hgap⟩ := hpq.gap
      refine .cons ?_ (hpq.token ▸ ih rest)
      rw [hgap, hpq.token]
      exact joins.widen n

theorem Layout.GoodPiece.widen {ctx : Context} {p q : Piece} (h : GoodPiece ctx p) (hpq : Widens p q) :
    GoodPiece ctx q := by
  obtain ⟨regular, kind, written, tidy⟩ := h
  rw [← hpq.token] at regular kind written tidy
  rw [← hpq.text] at written
  exact ⟨regular, kind, written, tidy⟩

/-- Wider blanks change neither tokens nor texts. -/
theorem map_eq_of_widens {α : Type} {ps qs : List Piece} (h : List.Forall₂ Widens ps qs)
    (f : Token → List Char → α) :
    (qs.map fun q => f q.token q.text) = ps.map fun p => f p.token p.text := by
  induction h with
  | nil => rfl
  | cons hpq _ ih => simp only [List.map_cons, ih, hpq.token, hpq.text]

theorem trimLast_widens {ps qs : List Piece} (h : List.Forall₂ Widens ps qs) :
    List.Forall₂ Widens (trimLast ps) (trimLast qs) := by
  induction h with
  | nil => exact .nil
  | @cons p q ps qs hpq hrest ih =>
    cases hrest with
    | nil => exact .cons ⟨hpq.token, by simp only [hpq.text], hpq.gap⟩ .nil
    | cons => exact .cons hpq ih

/-! ## What is read back -/

/-- A token as it is seen in a text. -/
def Token.seen (t : Token) : TokenKind × String := (t.kind, t.text)

/-- What is read back is what was written. -/
theorem Lexer.Relexed.seen {lexicon : Lexicon} {ps : List Piece} {ts : List Token}
    (h : Relexed lexicon ps [] ts) (hkind : ∀ p ∈ ps, p.token.kind ≠ .whitespace) :
    (ts.filter (·.kind != .whitespace)).map Token.seen =
      ps.map fun p => (p.token.kind, String.ofList p.text) := by
  generalize htail : ([] : List Char) = tail at h
  induction h with
  | nil tail pos =>
    subst htail
    rfl
  | @cons p ps tail ts pos pos' same rest ih =>
    have hp : p.token.kind ≠ .whitespace := hkind p (by simp)
    rw [filter_blankTokens, List.filter_cons_of_pos (by simpa using hp), List.map_cons,
      ih (fun q hq => hkind q (List.mem_cons_of_mem _ hq)) htail]
    rfl
  | @last p tail pos pos' key kind isOpen hkey =>
    subst htail
    have hp : p.token.kind ≠ .whitespace := hkind p (by simp)
    rw [filter_blankTokens, List.filter_cons_of_pos (by simpa using hp), List.append_nil]
    rfl

variable {ctx : Context} {text : String} {ps qs : List Piece}

theorem Spells.good_widened (h : Spells ctx text ps) (hw : List.Forall₂ Widens ps qs) :
    ∀ q ∈ qs, GoodPiece ctx q := by
  intro q hq
  obtain ⟨p, hp, hpq⟩ := exists_mem_left hw hq
  exact (h.good p hp).widen hpq

/-- A text that is spelt out from the pieces of a source, with wider blanks or not, is cut into the
tokens of the pieces. -/
theorem Spells.relexed_widened (h : Spells ctx text ps) (hw : List.Forall₂ Widens ps qs)
    {out : String} (hout : out.toList = dropWhileEnd isWhite (spell qs [])) :
    Relexed ctx.dialect.lexicon (trimLast qs) [] (tokenize ctx.dialect.lexicon out) := by
  have hgood := h.good_widened hw
  have htokens : (trimLast qs).map (·.token) = (trimLast ps).map (·.token) :=
    map_eq_of_widens (trimLast_widens hw) fun token _ => token
  have hspelt : Spelt ctx.dialect ctx.keywordCase none (trimLast qs) [] :=
    spelt_trimLast (h.shows.chain.widen hw) hgood (List.forall_mem_nil _) rfl
  rw [← spell_trimLast hgood] at hout
  rw [tokenize, hout]
  refine Lexer.relexed ctx.dialect ctx.keywordCase .start 0 text.toList .start 0 none _ _
    (.refl _) ?_ hspelt
  rw [htokens, map_token_trimLast, h.tokens]
  rfl

/-- No piece is white space. -/
theorem Spells.kind_trimLast (h : Spells ctx text ps) (hw : List.Forall₂ Widens ps qs) :
    ∀ q ∈ trimLast qs, q.token.kind ≠ .whitespace := by
  intro q hq
  obtain ⟨q', hq', htoken⟩ : ∃ q' ∈ qs, q'.token = q.token := by
    rw [← List.mem_map, ← map_token_trimLast]
    exact List.mem_map_of_mem hq
  rw [← htoken]
  exact (h.good_widened hw q' hq').kind

/-- So it shows the texts of the pieces. -/
theorem Spells.seen (h : Spells ctx text ps) (hw : List.Forall₂ Widens ps qs) {out : String}
    (hout : out.toList = dropWhileEnd isWhite (spell qs [])) :
    (Equivalence.significant ctx.dialect.lexicon out).map Token.seen =
      (trimLast ps).map fun p => (p.token.kind, String.ofList p.text) := by
  rw [Equivalence.significant, (h.relexed_widened hw hout).seen (h.kind_trimLast hw)]
  exact map_eq_of_widens (trimLast_widens hw) fun token text => (token.kind, String.ofList text)

theorem render_bare (unit : String) (lines : List Line) :
    render unit (lines.map Line.bare) = render unit lines := by
  unfold render
  rw [List.map_map]
  rfl

/-- Where it finds its anchors in order, an aligned text is spelt out from the pieces of its source, with
more spaces before some of them. -/
theorem exists_widened_spelling {style : Style} (hstyle : style.unaligned.Plain) {text : String}
    {dialect : Dialect} (hends : EndsBlank dialect text) (horder : InOrder dialect style text) :
    ∃ ps qs out, Spells (style.context dialect) text ps ∧ Widened none ps qs ∧
      format? dialect style text = some out ∧
      out.toList = dropWhileEnd isWhite (spell qs []) := by
  set ctx := style.context dialect
  have hcontext : ctx.Plain := style.context_plain hstyle.color hstyle.indent dialect
  have hparams : style.params.isEmpty = true := hstyle.params
  obtain ⟨ps, hps⟩ := exists_spelling hcontext hends
  obtain ⟨rows, cells, hlaid⟩ := laid_of_trace hcontext hps.trace
    (fun p hp => (hps.shows.written p hp).2) (laid_start _) State.remembers_start
  rw [List.nil_append] at hlaid
  obtain ⟨lines, hlines, hspread, hformat⟩ := exists_format dialect style text horder.orderly
  have hsource : linesOfText dialect style text = linesOf ctx (tokenize dialect.lexicon text) := by
    unfold linesOfText
    rw [map_substitute_of_isEmpty hparams]
    rfl
  rw [hsource] at hspread
  obtain ⟨qs, hwidened, hrender⟩ := hlaid.widened hps.shows.neat hspread
  exact ⟨ps, qs, _, hps, hwidened, hformat, hrender⟩

/-- So it is spelt out with wider blanks. -/
theorem exists_aligned_spelling {style : Style} (hstyle : style.unaligned.Plain) {text : String}
    {dialect : Dialect} (hends : EndsBlank dialect text) (horder : InOrder dialect style text) :
    ∃ ps qs out, Spells (style.context dialect) text ps ∧ List.Forall₂ Widens ps qs ∧
      format? dialect style text = some out ∧
      out.toList = dropWhileEnd isWhite (spell qs []) := by
  obtain ⟨ps, qs, out, hps, hwidened, hformat⟩ := exists_widened_spelling hstyle hends horder
  exact ⟨ps, qs, out, hps, hwidened.forall₂, hformat⟩

/-- **Alignment keeps the tokens**: where it finds its anchors in order, an aligned text has the tokens
of the text that is not aligned. -/
theorem align_keeps_tokens {style : Style} (hstyle : style.unaligned.Plain) {text : String}
    (hblank : ∀ c ∈ text.toList, isWhite c = true → isBlank c = true) (dialect : Dialect)
    (horder : InOrder dialect style text) :
    ∃ aligned plain, format? dialect style text = some aligned ∧
      format? dialect style.unaligned text = some plain ∧
      (Equivalence.significant dialect.lexicon aligned).map Token.seen =
        (Equivalence.significant dialect.lexicon plain).map Token.seen := by
  obtain ⟨ps, qs, aligned, hps, hwidens, hformat, hrender⟩ :=
    exists_aligned_spelling hstyle (endsBlank_of_forall hblank dialect) horder
  set ctx := style.context dialect
  have hplain : format? dialect style.unaligned text =
      some (render style.indent (linesOf ctx (tokenize dialect.lexicon text))) := by
    rw [format?_eq hstyle.params, Alignment.alignAll?_plain hstyle]
    change some (render style.indent (linesOf ctx.unaligned _)) = _
    rw [linesOf_unaligned, render_bare]
  refine ⟨_, _, hformat, hplain, ?_⟩
  refine (hps.seen hwidens hrender).trans (Eq.symm ?_)
  refine hps.seen (List.forall₂_same.mpr fun p _ => .refl p) ?_
  rw [← spell_trimLast hps.good]
  exact hps.toList_render

theorem align_keeps_tokens_assignments :
    ∃ aligned plain, format? .plsql { Style.standard with alignAssignments := true }
        "begin a := 1; bbb := 'c  '; end" = some aligned ∧
      format? .plsql .standard "begin a := 1; bbb := 'c  '; end" = some plain ∧
      (Equivalence.significant Dialect.plsql.lexicon aligned).map Token.seen =
        (Equivalence.significant Dialect.plsql.lexicon plain).map Token.seen :=
  have hstyle : { Style.standard with alignAssignments := true }.unaligned.Plain :=
    Style.standard_plain
  align_keeps_tokens hstyle (forall_mem_of_all (by decide)) .plsql (.inl ⟨rfl, rfl⟩)

/-- Where aliases and assignments are lined up on one line, a word may be cut in two. -/
theorem align_splits_word :
    ∃ aligned plain,
      format? .postgresql { Style.standard with alignColumns := true, alignAssignments := true }
        "BEGIN SELECT a AS xyz := 1, ccc AS wwwww := 2; END" = some aligned ∧
      format? .postgresql .standard "BEGIN SELECT a AS xyz := 1, ccc AS wwwww := 2; END" =
        some plain ∧
      (Equivalence.significant Dialect.postgresql.lexicon aligned).map Token.seen ≠
        (Equivalence.significant Dialect.postgresql.lexicon plain).map Token.seen := by
  refine ⟨"BEGIN\n  SELECT\n    a   AS xy    z := 1,\n    ccc AS wwwww := 2;\nEND",
    "BEGIN\n  SELECT\n    a AS xyz := 1,\n    ccc AS wwwww := 2;\nEND", ?_, ?_, fun h => ?_⟩
  · rw [format?_eq_layout?, tokenize, String.toList_ofList]
    decide +kernel
  · rw [format?_eq_layout?, tokenize, String.toList_ofList]
    decide +kernel
  · -- One of the two texts has a token more than the other.
    have haligned : (Equivalence.significant Dialect.postgresql.lexicon
        "BEGIN\n  SELECT\n    a   AS xy    z := 1,\n    ccc AS wwwww := 2;\nEND").length = 16 := by
      rw [Equivalence.significant, tokenize, String.toList_ofList]
      decide +kernel
    have hplain : (Equivalence.significant Dialect.postgresql.lexicon
        "BEGIN\n  SELECT\n    a AS xyz := 1,\n    ccc AS wwwww := 2;\nEND").length = 15 := by
      rw [Equivalence.significant, tokenize, String.toList_ofList]
      decide +kernel
    have hlength := congrArg List.length h
    rw [List.length_map, List.length_map, haligned, hplain] at hlength
    cases hlength

end SqlFormat

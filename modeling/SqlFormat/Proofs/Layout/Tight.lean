import SqlFormat.Proofs.Layout.Spelling

/-!
# What stays together

In PL/SQL the percent sign of an attribute binds its name: a word after it is written directly behind
it, with no space and on the same line.

Results: `gap_after_percent` (one token), `isChain_percent` (all tokens).
-/

namespace SqlFormat.Layout

open Text Lexer

variable {ctx : Context} {s : State} {item : Item} {p : Piece}

/-- The last token on the line is one that the next may stand directly behind. -/
structure State.AfterPercent (s : State) : Prop where
  prev : ∃ a, s.prev = some a ∧ a.isOperator "%" = true
  unary : s.unary = false
  breakAt : s.page.breakAt = none

theorem afterPercent_step (h : item.token.isOperator "%" = true) :
    (s.step ctx item).AfterPercent := by
  have hop := h
  simp only [Token.isOperator, Bool.and_eq_true, beq_iff_eq] at hop
  obtain ⟨hkind, htext⟩ := hop
  have hcontent : s.significant ctx item = s.content ctx item := by
    simp only [State.significant, hkind, htext]
    rfl
  have hstep : s.step ctx item = { s.content ctx item with prev := some item.token } := by
    rw [State.step, hkind, if_neg (by decide), hcontent]
  rw [hstep, State.content, State.emit_eq]
  refine ⟨⟨_, rfl, h⟩, ?_, State.breakAt_written _ _ _ _ _⟩
  simp [State.isUnarySign, Token.isOperator, htext]

/-- A percent sign and a word do not run together. -/
theorem wouldMerge_percent (dialect : Dialect) {a b : Token} (ha : a.isOperator "%" = true)
    (hb : b.text.toList.head?.any Char.isAlpha = true) : wouldMerge dialect.lexicon a b = false := by
  simp only [Token.isOperator, Bool.and_eq_true, beq_iff_eq] at ha
  obtain ⟨hkind, htext⟩ := ha
  obtain ⟨d, ds, hd, halpha⟩ : ∃ d ds, b.text.toList = d :: ds ∧ d.isAlpha = true := by
    cases h : b.text.toList with
    | nil => simp [h] at hb
    | cons d ds => exact ⟨d, ds, rfl, by simpa [h] using hb⟩
  have hjoined : a.text.toList ++ b.text.toList = '%' :: d :: ds := by
    rw [htext, hd]
    rfl
  have hnone : comment? dialect.lexicon ('%' :: d :: ds) = none := comment?_none_of_head (by decide)
  have hcomment := comment?_eq_none.mp hnone
  have hcompound : Scan.compoundOperator ('%' :: d :: ds) = 0 := by
    have htriple : Scan.isTriple (('%' :: d :: ds).take 3) = false := by
      rw [Bool.eq_false_iff]
      intro h
      exact Scan.isTriple_imp (p := fun l => l.head? ≠ some '%') (by decide) h rfl
    have hdouble : Scan.isDouble (('%' :: d :: ds).take 2) = false := Scan.isDouble_alpha halpha
    rw [Scan.compoundOperator_eq, htriple, hdouble]
    rfl
  simp only [wouldMerge, hkind, hjoined]
  simp [htext, hcomment.1, hcomment.2, hcompound]

/-- A word after a percent sign is written directly behind it. -/
theorem gap_after_percent (hspacing : (ctx.dialect.spacing "%").after = false)
    (hs : s.AfterPercent) (hkind : item.token.kind = .word)
    (halpha : item.token.text.toList.head?.any Char.isAlpha = true) (h : Adds ctx s item p) :
    p.gap = [] := by
  obtain ⟨⟨a, hprev, ha⟩, hunary, hbreak⟩ := hs
  cases h with
  | comment hc =>
    rw [hkind] at hc
    cases hc
  | significant =>
    have hspace : (s.placed ctx item).spaceBefore ctx item = false := by
      have hmerge := wouldMerge_percent ctx.dialect ha halpha
      have hop := ha
      simp only [Token.isOperator, Bool.and_eq_true, beq_iff_eq] at hop
      rw [State.spaceBefore, State.placed, hprev]
      simp only [hmerge, Bool.or_false]
      simp [State.spaced, hunary, Token.isBracket, hkind, hop.1, hop.2, hspacing]
    have hplaced : (s.placed ctx item).page = s.page := by
      simp only [State.placed, Sight.decision, hkind]
      rfl
    simp only [State.piece, hspace, hplaced, Page.gap, hbreak]
    rfl

/-- Where a word with a letter in front comes right after a percent sign, the two are written together. -/
theorem isChain_percent (hspacing : (ctx.dialect.spacing "%").after = false) {items : List Item}
    {ps : List Piece} (h : Trace ctx s items ps) :
    ps.IsChain fun p q => p.token.isOperator "%" = true → q.token.kind = .word →
      q.token.text.toList.head?.any Char.isAlpha = true → q.gap = [] := by
  induction h with
  | nil => exact .nil
  | cons adds rest ih =>
    refine List.isChain_cons.mpr ⟨fun q hq ha hkind halpha => ?_, ih⟩
    rw [adds.token] at ha
    cases rest with
    | nil => cases hq
    | cons adds' _ =>
      obtain rfl := Option.some.inj hq
      rw [adds'.token] at hkind halpha
      exact gap_after_percent hspacing (afterPercent_step ha) hkind halpha adds'

end SqlFormat.Layout

import Mathlib
import SqlFormat.Proofs.Layout.Blocks
import SqlFormat.Proofs.Layout.Decision

/-!
# What goes on inside a block

A token that is neither an opener nor a closer changes nothing but the innermost frame, and of that only
what is noted about its clause, its header and its values. Where blocks are kept on one line, it starts
no line either. A closer of the innermost block takes its frame away and no other.

Results: `Sight.goes_decision`, `Nesting.close?_of_top`, `State.step_decision`.
-/

namespace SqlFormat.Layout

open State (Decision)

variable {ctx : Context} {item : Item}

/-- What becomes of a page and the open blocks is what was decided. -/
theorem State.step_decision (ctx : Context) (s : State) (hcomment : item.token.kind.isComment = false) :
    (s.step ctx item).nesting = ((s.sight ctx item.token).decision ctx item).nesting ∧
      (s.step ctx item).page.line.indent =
        ((s.sight ctx item.token).decision ctx item).placed.getD s.page.indent ∧
      (s.step ctx item).page.indent = ((s.sight ctx item.token).decision ctx item).settled.getD
        (((s.sight ctx item.token).decision ctx item).placed.getD s.page.indent) := by
  rw [State.step, if_neg (by simp [hcomment]), State.significant_eq]
  generalize (s.sight ctx item.token).decision ctx item = d
  have hline := State.indent_written ctx s item d.placed (d.anchor.or s.pendingAnchor)
  have hpage := State.pageIndent_written ctx s item d.placed (d.anchor.or s.pendingAnchor)
  refine ⟨rfl, ?_, ?_⟩
  · unfold State.decided Page.settle
    cases d.settled <;> exact hline
  · unfold State.decided Page.settle
    cases hsettled : d.settled with
    | none => exact hpage
    | some indent => rfl

/-! ## Blocks that go on -/

/-- The frame of a block, and what became of it while the block went on. -/
structure Frame.Same (f g : Frame) : Prop where
  context : g.context = f.context
  outer : g.outer = f.outer
  base : g.base = f.base
  inline : g.inline = f.inline

theorem Frame.Same.refl (f : Frame) : f.Same f := ⟨rfl, rfl, rfl, rfl⟩

theorem Frame.Same.trans {f g h : Frame} (hfg : f.Same g) (hgh : g.Same h) : f.Same h :=
  ⟨hgh.context.trans hfg.context, hgh.outer.trans hfg.outer, hgh.base.trans hfg.base,
    hgh.inline.trans hfg.inline⟩

/-- No block is opened or closed; the innermost may have gone on. -/
structure Nesting.Goes (n m : Nesting) : Prop where
  overflow : m.overflow = n.overflow
  stack : m.stack = n.stack ∨ ∃ f g below, n.stack = f :: below ∧ m.stack = g :: below ∧
    f.Same g ∧ g.key = f.key

namespace Nesting

variable {n : Nesting}

theorem Goes.refl (n : Nesting) : n.Goes n := ⟨rfl, .inl rfl⟩

theorem goes_modifyTop (n : Nesting) {change : Frame → Frame} (hsame : ∀ f : Frame, f.Same (change f))
    (hkey : ∀ f : Frame, (change f).key = f.key) : n.Goes (n.modifyTop change) := by
  cases hstack : n.stack with
  | nil =>
    have hnone : n.modifyTop change = n := by rw [modifyTop, hstack]
    rw [hnone]
    exact .refl n
  | cons f below =>
    refine ⟨by rw [modifyTop, hstack], .inr ⟨f, change f, below, hstack, ?_, hsame f, hkey f⟩⟩
    exact modifyTop_stack_cons hstack change

theorem goes_setClause (n : Nesting) (clause : Option Clause) : n.Goes (n.setClause clause) := by
  cases hstack : n.stack with
  | nil => exact ⟨by rw [setClause, hstack], .inl (by rw [setClause, hstack])⟩
  | cons f below =>
    have hmodify : n.setClause clause = n.modifyTop fun f => { f with clause := clause } := by
      rw [setClause, modifyTop, hstack]
    rw [hmodify]
    exact n.goes_modifyTop (fun _ => ⟨rfl, rfl, rfl, rfl⟩) fun _ => rfl

/-- A semicolon in a procedural block leaves the block open. -/
theorem toProcedural?_of_top {f : Frame} {below : List Frame} (hstack : n.stack = f :: below)
    (hf : f.isProcedural = true) : n.toProcedural? = some n := by
  unfold toProcedural?
  rw [hstack, List.dropWhile_cons_of_neg (by simp [hf])]
  simp only [truncate, hstack, List.length_cons, le_refl, if_true]

theorem clear_of_nil (hstack : n.stack = []) : n.clear.stack = [] := by
  rw [clear, truncate_stack, hstack, List.drop_nil]

/-- A closer that closes the innermost block closes no other. -/
theorem close?_of_top {f : Frame} {below : List Frame} (hstack : n.stack = f :: below)
    {p : Frame → Bool} (hf : p f = true) : n.close? p = some (f, n.pop) := by
  unfold close?
  rw [hstack, List.dropWhile_cons_of_neg (by simp [hf])]
  simp only [truncate, hstack, List.length_cons, le_refl, if_true]

theorem pop_of_top {f : Frame} {below : List Frame} (hstack : n.stack = f :: below) :
    n.pop.stack = below ∧ n.pop.overflow = n.overflow := by
  rw [pop, hstack]
  exact ⟨rfl, rfl⟩

end Nesting

/-- What is decided for a token leaves the line, if blocks are kept on it. -/
structure Sight.Quiet (v : Sight) (d : Decision) : Prop where
  placed : v.nesting.inInline = true → d.placed = none
  settled : v.nesting.inInline = true → d.settled = none

namespace Sight

variable {v : Sight}

theorem goes_content (v : Sight) : v.nesting.Goes v.content.nesting ∧ v.Quiet v.content :=
  ⟨.refl _, fun _ => rfl, fun _ => rfl⟩

theorem keepsLine_of_inInline (h : v.nesting.inInline = true) : v.keepsLine = true := by
  rw [keepsLine, h, Bool.true_or]

theorem goes_clause (v : Sight) (clause : Option Clause) :
    v.nesting.Goes (v.clause clause).nesting ∧ v.Quiet (v.clause clause) := by
  unfold Sight.clause
  split
  · exact v.goes_content
  · next hkeeps =>
    refine ⟨v.nesting.goes_setClause clause, fun h => ?_, fun h => ?_⟩ <;>
      exact absurd (keepsLine_of_inInline h) hkeeps

theorem goes_keyword (v : Sight) (lexicon : Lexicon) (key : String) :
    v.nesting.Goes (v.keyword lexicon key).nesting ∧ v.Quiet (v.keyword lexicon key) := by
  unfold keyword
  split
  · exact v.goes_content
  · split
    · exact v.goes_content
    · next hkeeps =>
      -- a keyword that starts a line is in no block on one line
      have hquiet : ∀ d, v.Quiet d := fun d =>
        ⟨fun h => absurd (keepsLine_of_inInline h) hkeeps, fun h => absurd (keepsLine_of_inInline h) hkeeps⟩
      refine ⟨?_, hquiet _⟩
      split
      · split
        · unfold division
          split <;> exact v.nesting.goes_modifyTop (fun _ => ⟨rfl, rfl, rfl, rfl⟩) fun _ => rfl
        · split <;> exact .refl _
      · exact .refl _

theorem goes_comma (v : Sight) : v.nesting.Goes v.comma.nesting ∧ v.Quiet v.comma := by
  have hsettled : v.nesting.inInline = true →
      (if v.keepsLine || v.nesting.clause == some .limit then none else some v.nesting.depth) = none := by
    intro h
    rw [keepsLine_of_inInline h, Bool.true_or, if_pos rfl]
  unfold comma
  simp only
  split
  · exact ⟨v.nesting.goes_modifyTop (fun _ => ⟨rfl, rfl, rfl, rfl⟩) fun _ => rfl, fun _ => rfl, hsettled⟩
  · exact ⟨.refl _, fun _ => rfl, hsettled⟩

/-- A header ends in a block that is not kept on one line. -/
theorem goes_headerEnd (hsound : v.nesting.Sound) {token : Token} (hends : v.endsHeader token = true) :
    v.nesting.Goes v.headerEnd.nesting ∧ v.Quiet v.headerEnd := by
  refine ⟨v.nesting.goes_modifyTop (fun _ => ⟨rfl, rfl, rfl, rfl⟩) fun _ => rfl, fun _ => rfl, fun h => ?_⟩
  cases hstack : v.nesting.stack with
  | nil => simp [headerEnd, Nesting.top?, hstack]
  | cons f below =>
    have hinline : f.inline = true := by simpa [Nesting.inInline, Nesting.top?, hstack] using h
    have hheader := ((hsound.frames f (by simp [hstack])).inline hinline).2.1
    simp [endsHeader, Nesting.top?, hstack, hheader] at hends

/-- A semicolon in a procedural block, or outside all blocks. -/
theorem goes_semicolon (hsound : v.nesting.Sound) (hover : v.nesting.overflow = 0)
    (htop : ∀ f ∈ v.nesting.stack.head?, f.isProcedural = true) (lines : Nat) :
    v.nesting.Goes (v.semicolon lines).nesting ∧ v.Quiet (v.semicolon lines) := by
  unfold semicolon
  simp only
  cases hstack : v.nesting.stack with
  | nil =>
    have hdepth : v.nesting.proceduralDepth = 0 := by
      rw [hsound.procedural, hstack]
      rfl
    have hinline : v.nesting.inInline = false := by
      rw [Nesting.inInline, Nesting.top?, hstack]
      rfl
    rw [hdepth, if_neg (Nat.lt_irrefl 0)]
    refine ⟨⟨hover.symm, .inl ?_⟩, ?_, ?_⟩
    · rw [hstack]
      exact Nesting.clear_of_nil hstack
    · exact fun h => absurd h (by simp [hinline])
    · exact fun h => absurd h (by simp [hinline])
  | cons f below =>
    have hf : f.isProcedural = true := htop f (by rw [hstack]; rfl)
    have hdepth : 0 < v.nesting.proceduralDepth := by
      rw [hsound.procedural, hstack, Nesting.countProcedural_cons, hf]
      exact Nat.succ_pos _
    have hinline : v.nesting.inInline = false := by
      rw [Nesting.inInline, Nesting.top?, hstack]
      exact State.not_inline_of_procedural (hsound.frames f (by simp [hstack])) hf
    rw [if_pos hdepth, Nesting.toProcedural?_of_top hstack hf]
    refine ⟨v.nesting.goes_modifyTop (fun _ => ⟨rfl, rfl, rfl, rfl⟩) fun _ => rfl, ?_, ?_⟩
    · exact fun h => absurd h (by simp [hinline])
    · exact fun h => absurd h (by simp [hinline])

/-- A token that is no opener and no closer opens and closes nothing, and starts no line in a block that
is kept on one line. -/
theorem goes_decision (hsound : v.nesting.Sound) (hover : v.nesting.overflow = 0)
    (hopen : item.token.kind ≠ .openParen) (hclose : item.token.kind ≠ .closeParen)
    (hsemi : item.token.isOperator ";" = true →
      ∀ f ∈ v.nesting.stack.head?, f.isProcedural = true) :
    v.nesting.Goes (v.decision ctx item).nesting ∧ v.Quiet (v.decision ctx item) := by
  unfold decision
  cases hkind : item.token.kind with
  | reservedTopLevel => exact v.goes_clause _
  | reservedTopLevelNoIndent => exact v.goes_clause _
  | reservedNewline => exact v.goes_keyword _ _
  | openParen => exact absurd hkind hopen
  | closeParen => exact absurd hkind hclose
  | operator =>
    simp only
    split
    · next htext =>
      exact goes_semicolon hsound hover (hsemi (by simpa [Token.isOperator, hkind] using htext)) _
    · split
      · exact v.goes_comma
      · exact v.goes_content
  | reserved =>
    simp only
    split
    · next hends => exact goes_headerEnd hsound hends
    · exact v.goes_content
  | whitespace | word | string | number | lineComment | blockComment | indexedPlaceholder
    | namedPlaceholder => exact v.goes_content

end Sight

end SqlFormat.Layout

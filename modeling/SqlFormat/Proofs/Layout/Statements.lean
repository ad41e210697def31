import Mathlib
import SqlFormat.Proofs.Layout.Blocks
import SqlFormat.Proofs.Layout.Concat
import SqlFormat.Proofs.Layout.Decision

/-!
# Statements are laid out one by one

A semicolon outside all procedural blocks leaves nothing of its statement behind but the lines: whatever
was open, waited for or noted is given up. So the statements after it are laid out as if they stood alone,
below the lines that are there.

Results: `State.run_onto`, `State.Ended.step` (the first token), `linesOf_append`.
-/

namespace SqlFormat.Layout

variable {ctx : Context} {s : State} {item : Item} {page : Page}

/-! ## Below other lines -/

/-- The page below lines that were finished before, last first. -/
def Page.onto (page : Page) (lines : List Line) : Page :=
  { page with done := page.done ++ lines }

/-- The state, with its page below other lines. -/
def State.onto (s : State) (lines : List Line) : State :=
  { s with page := s.page.onto lines }

namespace Page

variable (page) (lines : List Line)

theorem place_onto (placed : Option Nat) : (page.onto lines).place placed = (page.place placed).onto lines := by
  cases placed <;> rfl

theorem note_onto (anchor : Option (AnchorKind × Nat)) :
    (page.onto lines).note anchor = (page.note anchor).onto lines := by
  cases anchor <;> rfl

theorem settle_onto (settled : Option Nat) (blank : Nat) :
    (page.onto lines).settle settled blank = (page.settle settled blank).onto lines := by
  cases settled <;> rfl

theorem write_onto (text : String) (width : Nat) :
    (page.onto lines).write text width = (page.write text width).onto lines :=
  rfl

theorem advance_onto (space : Bool) :
    (page.onto lines).advance space = (page.advance space).onto lines := by
  obtain ⟨done, line, breakAt, blankLines⟩ := page
  cases breakAt with
  | none =>
    by_cases hspace : (space && !line.text.isEmpty) = true
    · simp only [advance, onto, hspace, if_true]
      rfl
    · simp only [advance, onto, hspace, Bool.false_eq_true, if_false]
  | some indent =>
    by_cases hempty : line.text.isEmpty = true
    · simp only [advance, onto, hempty, if_true]
    · simp only [advance, onto, hempty, Bool.false_eq_true, if_false, List.append_assoc,
        List.cons_append]

end Page

namespace State

theorem written_onto (ctx : Context) (s : State) (item : Item) (placed : Option Nat)
    (anchor : Option (AnchorKind × Nat)) (lines : List Line) :
    (s.onto lines).written ctx item placed anchor = (s.written ctx item placed anchor).onto lines := by
  unfold written
  simp only [onto, Page.place_onto, Page.advance_onto, Page.note_onto, Page.write_onto]
  rfl

theorem significant_onto (ctx : Context) (s : State) (item : Item) (lines : List Line) :
    (s.onto lines).significant ctx item = (s.significant ctx item).onto lines := by
  rw [significant_eq, significant_eq]
  -- what is decided does not depend on finished lines
  have hsight : (s.onto lines).sight ctx item.token = s.sight ctx item.token := rfl
  rw [hsight, decided, decided, written_onto, Page.settle_onto]
  rfl

theorem comment_onto (ctx : Context) (s : State) (item : Item) (lines : List Line) :
    (s.onto lines).comment ctx item = (s.comment ctx item).onto lines := by
  have hbroken : (s.onto lines).broken item = (s.broken item).onto lines := by
    unfold broken
    change (if item.startsLine && !s.page.atLineStart then _ else _) = _
    split <;> rfl
  have hpage : (s.onto lines).commentPage item = (s.commentPage item).onto lines := by
    unfold commentPage
    change (if s.attaches item then _ else _) = _
    rw [hbroken]
    split
    · rfl
    · exact Page.advance_onto _ _ _
  have hwritten : (s.onto lines).commentWritten ctx item = (s.commentWritten ctx item).onto lines := by
    unfold commentWritten
    rw [hpage]
    rfl
  rw [comment_eq, comment_eq, hwritten]
  change (⟨_, if item.endsLine && (s.commentWritten ctx item).breakAt.isNone then _ else _, _, _, _, _⟩ :
    State) = _
  cases item.endsLine && (s.commentWritten ctx item).breakAt.isNone <;> rfl

theorem step_onto (ctx : Context) (s : State) (item : Item) (lines : List Line) :
    (s.onto lines).step ctx item = (s.step ctx item).onto lines := by
  unfold step
  split
  · exact comment_onto ctx s item lines
  · rw [significant_onto]
    rfl

/-- **Lines above change nothing.** -/
theorem run_onto (ctx : Context) (s : State) (items : List Item) (lines : List Line) :
    (s.onto lines).run ctx items = (s.run ctx items).onto lines := by
  induction items generalizing s with
  | nil => rfl
  | cons item items ih =>
    rw [run, run, List.foldl_cons, List.foldl_cons, step_onto]
    exact ih _

/-! ## Empty lines -/

/-- Empty lines wait only together with a line that is to be started. -/
def Prompt (s : State) : Prop :=
  s.page.breakAt = none → s.page.blankLines = 0

theorem blankLines_advance (hpage : page.breakAt = none → page.blankLines = 0) (space : Bool) :
    (page.advance space).blankLines = 0 := by
  unfold Page.advance
  cases hbreak : page.breakAt with
  | none =>
    cases space && !page.line.text.isEmpty with
    | true => exact hpage hbreak
    | false => exact hpage hbreak
  | some indent => cases page.line.text.isEmpty <;> rfl

theorem Prompt.written (h : s.Prompt) (placed : Option Nat) (anchor : Option (AnchorKind × Nat)) :
    (s.written ctx item placed anchor).blankLines = 0 := by
  have hnote : ∀ page : Page, (page.note anchor).blankLines = page.blankLines := by
    intro page
    cases anchor <;> rfl
  refine (hnote _).trans (blankLines_advance ?_ _)
  cases placed with
  | none => exact h
  | some indent => exact nofun

theorem Prompt.step (h : s.Prompt) (item : Item) : (s.step ctx item).Prompt := by
  unfold State.step
  split
  · -- a comment
    have hbroken : (s.broken item).Prompt := by
      unfold broken
      split
      · exact nofun
      · exact h
    have hpage : (s.commentPage item).breakAt = none → (s.commentPage item).blankLines = 0 := by
      unfold commentPage
      split
      · exact h
      · exact fun _ => blankLines_advance hbroken _
    rw [comment_eq]
    unfold Prompt
    simp only
    split
    · exact nofun
    · exact hpage
  · rw [significant_eq]
    unfold Prompt decided
    simp only
    intro hbreak
    cases hsettled : ((s.sight ctx item.token).decision ctx item).settled with
    | none => exact h.written _ _
    | some indent => rw [hsettled] at hbreak; cases hbreak

theorem Prompt.run (h : s.Prompt) (items : List Item) : (s.run ctx items).Prompt := by
  induction items generalizing s with
  | nil => exact h
  | cons item items ih => exact ih (h.step item)

/-! ## After a semicolon -/

/-- A statement has just ended: nothing is left of it but its lines. -/
structure Ended (ctx : Context) (s : State) : Prop where
  nesting : s.nesting = .start
  between : s.between = false
  unary : s.unary = false
  pending : s.pendingAnchor = none
  prev : ∃ t, s.prev = some t ∧ t.kind = .operator
  breakAt : s.page.breakAt = some 0
  blankLines : s.page.blankLines = ctx.style.linesBetweenQueries
  line : ';' ∈ s.page.line.text.toList

/-- What is decided for a semicolon outside all procedural blocks. -/
theorem decision_query (hkind : item.token.isOperator ";" = true)
    (hdepth : s.nesting.proceduralDepth = 0) : (s.sight ctx item.token).decision ctx item =
      ⟨none, none, s.nesting.clear, none, some 0, ctx.style.linesBetweenQueries⟩ := by
  obtain ⟨hoperator, htext⟩ : item.token.kind = .operator ∧ item.token.text = ";" := by
    simpa [Token.isOperator] using hkind
  have hquery : ¬0 < (s.sight ctx item.token).nesting.proceduralDepth := by
    change ¬0 < s.nesting.proceduralDepth
    omega
  simp only [Sight.decision, hoperator, htext, beq_self_eq_true, if_true, Sight.semicolon, hquery,
    if_false]
  rfl

/-- A semicolon outside all procedural blocks ends its statement, whatever is open. -/
theorem ended_semicolon (hkind : item.token.isOperator ";" = true) (hsound : s.nesting.Sound)
    (hdepth : s.nesting.proceduralDepth = 0) (hprompt : s.Prompt)
    (hplain : ctx.decorate = fun _ text => text) : (s.step ctx item).Ended ctx := by
  obtain ⟨hoperator, htext⟩ : item.token.kind = .operator ∧ item.token.text = ";" := by
    simpa [Token.isOperator] using hkind
  have hbetween : (s.sight ctx item.token).betweenAfter item.token = false := by
    simp [Sight.betweenAfter, hoperator, htext]
  have hstep : s.step ctx item = { s.decided ctx item
      ⟨none, none, s.nesting.clear, none, some 0, ctx.style.linesBetweenQueries⟩ false with
      prev := some item.token } := by
    rw [step, significant_eq, decision_query hkind hdepth, hbetween,
      if_neg (by simp [hoperator, TokenKind.isComment])]
  have hwritten : (s.written ctx item none s.pendingAnchor).blankLines = 0 := hprompt.written none _
  rw [hstep]
  refine ⟨?_, rfl, ?_, rfl, ⟨item.token, rfl, hoperator⟩, rfl, ?_, ?_⟩
  · have hclear := hsound.clear
    have hstack : s.nesting.clear.stack = [] := by
      rw [Nesting.clear, Nesting.truncate_stack]
      simp
    have hzero : s.nesting.clear.proceduralDepth = 0 := by
      rw [hclear.procedural, hstack]
      rfl
    change s.nesting.clear = .start
    cases hn : s.nesting.clear with
    | mk stack root depth overflow =>
      have hroot : s.nesting.clear.rootClause = none := rfl
      have hover : s.nesting.clear.overflow = 0 := rfl
      rw [hn] at hstack hzero hroot hover
      simp only at hstack hzero hroot hover
      rw [hstack, hzero, hroot, hover]
      rfl
  · simp [decided, isUnarySign, Token.isOperator, htext]
  · change max (s.written ctx item none s.pendingAnchor).blankLines _ = _
    rw [hwritten, Nat.zero_max]
  · change ';' ∈ (s.written ctx item none s.pendingAnchor).line.text.toList
    have hdisplay : displayText ctx item.token = ";" := by
      simp [displayText, Token.isKeyword, hoperator, TokenKind.isReserved, htext]
    unfold written Page.write
    simp only [hplain, hdisplay, String.toList_append]
    exact List.mem_append_right _ (by decide)

/-- What stands on the last line of a statement. -/
theorem Ended.line_ne (h : s.Ended ctx) : s.page.line.text.isEmpty = false := by
  cases hempty : s.page.line.text.isEmpty with
  | false => rfl
  | true =>
    have hnil := h.line
    rw [String.isEmpty_iff.mp hempty] at hnil
    cases hnil

/-- After a statement as before all tokens lies the start of a line without indentation. -/
theorem Ended.sight_eq (h : s.Ended ctx) (token : Token) :
    s.sight ctx token = State.start.sight ctx token := by
  have hroom : s.available ctx = State.start.available ctx := by
    simp only [available, Page.atLineStart, Page.column, h.breakAt, State.start, Page.start,
      Line.empty, Option.isSome_some, Option.isSome_none, Bool.false_or, Bool.true_or,
      Nat.zero_mul, Nat.add_zero]
    rfl
  have hanchor : s.anchorFor? ctx token = State.start.anchorFor? ctx token := by
    simp [anchorFor?, h.nesting, Page.lineHas, h.breakAt, State.start, Page.start, Line.empty]
  unfold sight
  rw [h.nesting, h.between, hroom, hanchor, Page.indent, h.breakAt]
  rfl

/-- A token after a statement is written below the lines of the statement. -/
theorem Ended.written_eq (h : s.Ended ctx) (apart : Bool) (placed : Option Nat)
    (anchor : Option (AnchorKind × Nat)) :
    s.written ctx { item with apart := apart } placed anchor =
      (State.start.written ctx item placed anchor).onto
        (List.replicate ctx.style.linesBetweenQueries (.empty 0) ++ s.page.line :: s.page.done) := by
  have hadvance : (s.page.place placed).advance (s.spaceBefore ctx { item with apart := apart }) =
      ((State.start.page.place placed).advance (State.start.spaceBefore ctx item)).onto
        (List.replicate ctx.style.linesBetweenQueries (.empty 0) ++ s.page.line :: s.page.done) := by
    cases placed with
    | none =>
      simp only [Page.place, Page.advance, h.breakAt, h.line_ne, h.blankLines, Bool.false_eq_true,
        if_false]
      rfl
    | some indent =>
      simp only [Page.place, Page.advance, Page.newline, h.line_ne, h.blankLines,
        Bool.false_eq_true, if_false]
      rfl
  unfold written
  rw [hadvance, Page.note_onto, Page.write_onto]

/-- The first token after a statement is laid out as the first token of all, below the statement. -/
theorem Ended.step (h : s.Ended ctx) (hcomment : item.token.kind.isComment = false) (apart : Bool) :
    s.step ctx { item with apart := apart } = (State.start.step ctx item).onto
      (List.replicate ctx.style.linesBetweenQueries (.empty 0) ++ s.page.line :: s.page.done) := by
  obtain ⟨prev, hprev, hoperator⟩ := h.prev
  have hunary : s.isUnarySign item.token = State.start.isUnarySign item.token := by
    simp [isUnarySign, hprev, hoperator, State.start]
  have hdecision : (s.sight ctx item.token).decision ctx { item with apart := apart } =
      (State.start.sight ctx item.token).decision ctx item := by
    rw [h.sight_eq]
    exact Sight.decision_congr _ rfl rfl rfl rfl rfl
  unfold State.step
  rw [if_neg (by simp [hcomment]), if_neg (by simp [hcomment]), significant_eq, significant_eq]
  simp only
  rw [hdecision, h.sight_eq, decided, decided, h.written_eq, Page.settle_onto]
  simp only [h.pending, hunary]
  rfl

end State

/-! ## Two sequences -/

/-- **The lines of statements**: the lines up to a semicolon outside all procedural blocks, the empty
lines between two statements, and the lines of what follows as if it stood alone. -/
theorem linesOf_append (hplain : ctx.decorate = fun _ text => text) {first second : List Token}
    {before : List Item} {last item : Item} {rest : List Item}
    (hfirst : Item.ofTokens first = before ++ [last]) (hlast : last.token.isOperator ";" = true)
    (hdepth : (State.start.run ctx before).nesting.proceduralDepth = 0)
    (hclosed : ∀ i t, first[i]? = some t → Groups.isOpening t = true →
      ((Groups.ofTokens first).matchingClose? i).isSome)
    (hsecond : Item.ofTokens second = item :: rest) (hitem : item.token.kind.isComment = false) :
    linesOf ctx (first ++ second) =
      linesOf ctx first ++ List.replicate ctx.style.linesBetweenQueries (.empty 0) ++
        linesOf ctx second ∧
      ∃ line ∈ (linesOf ctx first).getLast?, ';' ∈ line.text.toList := by
  -- the semicolon is the last token but for white space, so that no comment is
  have hcomment : ∀ t ∈ first.getLast?, t.kind ≠ .blockComment := by
    intro t ht hkind
    have htokens := congrArg (List.map (·.token)) hfirst
    obtain ⟨front, rfl⟩ := List.getLast?_eq_some_iff.mp ht
    rw [Item.map_token_ofTokens, List.filter_append, List.map_append] at htokens
    obtain rfl : t = last.token := by
      simpa [hkind] using (List.append_inj' htokens (by simp [hkind])).2
    simp [Token.isOperator, hkind] at hlast
  obtain ⟨apart, hitems⟩ := Item.ofTokens_append hclosed hcomment hsecond hitem
  have hended : ((State.start.run ctx before).step ctx last).Ended ctx :=
    State.ended_semicolon hlast (State.run_sound ctx Nesting.sound_start before) hdepth
      (State.Prompt.run (fun _ => rfl) before) hplain
  have hrun : State.start.run ctx (before ++ [last]) = (State.start.run ctx before).step ctx last := by
    rw [State.run, List.foldl_append]
    rfl
  have hleft : linesOf ctx first = ((State.start.run ctx before).step ctx last).page.lines := by
    rw [linesOf, hfirst, hrun]
  refine ⟨?_, ?_⟩
  · have hwhole : State.start.run ctx (Item.ofTokens (first ++ second)) =
        (State.start.run ctx (item :: rest)).onto
          (List.replicate ctx.style.linesBetweenQueries (.empty 0) ++
            ((State.start.run ctx before).step ctx last).page.line ::
              ((State.start.run ctx before).step ctx last).page.done) := by
      calc State.start.run ctx (Item.ofTokens (first ++ second))
        _ = ((State.start.run ctx (before ++ [last])).step ctx { item with apart := apart }).run
              ctx rest := by
            rw [hitems, hfirst, State.run, List.foldl_append]
            rfl
        _ = ((State.start.step ctx item).onto _).run ctx rest := by
            rw [hrun, hended.step hitem]
        _ = _ := State.run_onto ctx _ rest _
    rw [hleft, linesOf, hwhole, linesOf, hsecond]
    simp only [Page.lines, State.onto, Page.onto, List.reverse_cons, List.reverse_append,
      List.reverse_replicate, List.append_assoc]
  · refine ⟨((State.start.run ctx before).step ctx last).page.line, ?_, hended.line⟩
    rw [hleft]
    simp [Page.lines]

end SqlFormat.Layout

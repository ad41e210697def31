import Mathlib
import SqlFormat.Proofs.Layout.Turn

/-!
# Layout without anchors

Whether something is to be lined up has no influence on the lines that are lined up: a style that
lines nothing up gives the same lines without anchors.

Results: `linesOf_unaligned`.
-/

namespace SqlFormat

/-- The style that lines nothing up and is like the given one else. -/
def Style.unaligned (style : Style) : Style :=
  { style with alignColumns := false, alignAssignments := false, alignValues := false }

end SqlFormat

namespace SqlFormat.Layout

/-! ## The same without anchors -/

def Context.unaligned (ctx : Context) : Context :=
  { ctx with style := ctx.style.unaligned }

def Line.bare (line : Line) : Line := { line with anchors := [] }

def Page.bare (page : Page) : Page :=
  { page with line := page.line.bare, done := page.done.map Line.bare }

def Frame.bare (f : Frame) : Frame := { f with valueSlot := none }

def Nesting.bare (n : Nesting) : Nesting := { n with stack := n.stack.map Frame.bare }

def State.bare (s : State) : State :=
  { s with nesting := s.nesting.bare, page := s.page.bare, pendingAnchor := none }

/-! ## Open blocks -/

namespace Nesting

variable (n : Nesting)

@[simp] theorem top?_bare : n.bare.top? = n.top?.map Frame.bare := List.head?_map

@[simp] theorem topProcedural?_bare : n.bare.topProcedural? = n.topProcedural?.map Frame.bare := by
  unfold topProcedural?
  rw [top?_bare]
  cases n.top? with
  | none => rfl
  | some f =>
    change (some f.bare).filter _ = ((some f).filter _).map _
    rw [Option.filter_some, Option.filter_some, show f.bare.isProcedural = f.isProcedural from rfl]
    split <;> rfl

@[simp] theorem base_bare : n.bare.base = n.base := by
  obtain ⟨stack, _⟩ := n
  cases stack <;> rfl

@[simp] theorem clause_bare : n.bare.clause = n.clause := by
  obtain ⟨stack, _⟩ := n
  cases stack <;> rfl

@[simp] theorem depth_bare : n.bare.depth = n.depth := by
  rw [depth, depth, base_bare, clause_bare]

@[simp] theorem inInline_bare : n.bare.inInline = n.inInline := by
  obtain ⟨stack, _⟩ := n
  cases stack <;> rfl

@[simp] theorem inHeader_bare : n.bare.inHeader = n.inHeader := by
  obtain ⟨stack, _⟩ := n
  cases stack <;> rfl

@[simp] theorem isFull_bare : n.bare.isFull = n.isFull := by
  simp [isFull, bare]

@[simp] theorem setClause_bare (clause : Option Clause) :
    n.bare.setClause clause = (n.setClause clause).bare := by
  obtain ⟨stack, _⟩ := n
  cases stack <;> rfl

theorem modifyTop_bare {change : Frame → Frame}
    (hchange : ∀ f : Frame, change f.bare = (change f).bare) :
    n.bare.modifyTop change = (n.modifyTop change).bare := by
  obtain ⟨stack, _⟩ := n
  cases stack with
  | nil => rfl
  | cons f rest => simp [modifyTop, bare, hchange]

@[simp] theorem truncate_bare (size : Nat) : n.bare.truncate size = (n.truncate size).bare := by
  have hcount : ∀ frames : List Frame,
      countProcedural (frames.map Frame.bare) = countProcedural frames := by
    intro frames
    rw [countProcedural, List.countP_map]
    rfl
  unfold truncate
  simp only [bare, List.length_map]
  split
  · rfl
  · simp only [← List.map_drop, ← List.map_take, hcount]

@[simp] theorem pop_bare : n.bare.pop = n.pop.bare := by
  obtain ⟨stack, _⟩ := n
  cases stack <;> rfl

@[simp] theorem clear_bare : n.bare.clear = n.clear.bare := by
  unfold clear
  rw [truncate_bare]
  rfl

/-- What closes a block looks at keys only. -/
theorem close?_bare (closes : String → Bool) :
    n.bare.close? (fun f => closes f.key) =
      (n.close? fun f => closes f.key).map fun closed => (closed.1.bare, closed.2.bare) := by
  unfold close?
  have hdrop : (n.bare.stack.dropWhile fun f => !closes f.key) =
      (n.stack.dropWhile fun f => !closes f.key).map Frame.bare := by
    rw [bare, List.dropWhile_map]
    rfl
  rw [hdrop]
  cases n.stack.dropWhile fun f => !closes f.key with
  | nil => rfl
  | cons f rest => simp [truncate_bare, pop_bare]

@[simp] theorem toProcedural?_bare : n.bare.toProcedural? = n.toProcedural?.map bare := by
  unfold toProcedural?
  have hdrop : (n.bare.stack.dropWhile fun f => !f.isProcedural) =
      (n.stack.dropWhile fun f => !f.isProcedural).map Frame.bare := by
    rw [bare, List.dropWhile_map]
    rfl
  rw [hdrop]
  cases n.stack.dropWhile fun f => !f.isProcedural with
  | nil => rfl
  | cons f rest => simp [truncate_bare]

end Nesting

/-! ## Pages -/

namespace Page

variable (page : Page)

@[simp] theorem write_bare (text : String) (width : Nat) :
    page.bare.write text width = (page.write text width).bare := rfl

@[simp] theorem advance_bare (space : Bool) :
    page.bare.advance space = (page.advance space).bare := by
  obtain ⟨done, line, breakAt, blankLines⟩ := page
  have hline : line.bare.text = line.text := rfl
  cases breakAt with
  | none =>
    simp only [advance, bare, hline]
    split <;> rfl
  | some indent =>
    simp only [advance, bare, hline]
    split
    · rfl
    · simp [Line.bare, Line.empty]

@[simp] theorem note_bare (anchor : Option (AnchorKind × Nat)) : (page.note anchor).bare = page.bare := by
  cases anchor <;> rfl

theorem newline_bare (indent : Nat) : page.bare.newline indent = (page.newline indent).bare := rfl

end Page

namespace State

variable {ctx : Context} {s : State} {item : Item}

@[simp] theorem newline_bare (s : State) (indent : Nat) :
    s.bare.newline indent = (s.newline indent).bare := rfl

@[simp] theorem keepsLine_bare (s : State) : s.bare.keepsLine = s.keepsLine := by
  simp [keepsLine, bare]

@[simp] theorem emit_bare (ctx : Context) (s : State) (item : Item) :
    s.bare.emit ctx.unaligned item = (s.emit ctx item).bare := by
  have hpage : s.bare.written ctx.unaligned item none none =
      (s.written ctx item none s.pendingAnchor).bare := by
    have hbare : (s.bare.page.place none).advance (s.bare.spaceBefore ctx.unaligned item) =
        (s.page.advance (s.spaceBefore ctx item)).bare := Page.advance_bare s.page _
    unfold written
    rw [hbare, ← Page.write_bare, Page.note_bare]
    rfl
  rw [emit_eq, emit_eq]
  exact congrArg (fun page => { s.bare with
    page := page, unary := s.isUnarySign item.token, pendingAnchor := none }) hpage

@[simp] theorem content_bare (ctx : Context) (s : State) (item : Item) :
    s.bare.content ctx.unaligned item = (s.content ctx item).bare := by
  have hanchor : s.bare.anchorFor? ctx.unaligned item.token = none := by
    unfold anchorFor?
    simp [Context.unaligned, Style.unaligned]
  unfold content
  rw [← emit_bare]
  simp only [hanchor]
  rfl

theorem emit_of_eq {r : State} (h : r = s.bare) :
    r.emit ctx.unaligned item = (s.emit ctx item).bare := by
  rw [h, emit_bare]

theorem content_of_eq {r : State} (h : r = s.bare) :
    r.content ctx.unaligned item = (s.content ctx item).bare := by
  rw [h, content_bare]

theorem modifyTop_bare (s : State) {change : Frame → Frame}
    (hchange : ∀ f : Frame, change f.bare = (change f).bare) :
    { s.bare with nesting := s.bare.nesting.modifyTop change } =
      { s with nesting := s.nesting.modifyTop change }.bare :=
  congrArg (fun nesting => { s.bare with nesting := nesting }) (s.nesting.modifyTop_bare hchange)

theorem modifyTop_newline_bare (s : State) {change : Frame → Frame} (indent : Nat)
    (hchange : ∀ f : Frame, change f.bare = (change f).bare) :
    { s.bare with nesting := s.bare.nesting.modifyTop change }.newline indent =
      ({ s with nesting := s.nesting.modifyTop change }.newline indent).bare := by
  rw [modifyTop_bare s hchange]
  rfl

/-! ## Every rule -/

theorem topLevel_bare : s.bare.topLevel ctx.unaligned item = (s.topLevel ctx item).bare := by
  have hemit : ({ s.bare with between := false }.newline s.nesting.base).emit ctx.unaligned item =
      (({ s with between := false }.newline s.nesting.base).emit ctx item).bare := emit_of_eq rfl
  unfold topLevel
  rw [keepsLine_bare, content_bare]
  split
  · rfl
  · simp only [show s.bare.nesting.base = s.nesting.base from s.nesting.base_bare, hemit]
    simp only [State.newline, bare, Nesting.setClause_bare, Page.newline_bare]

theorem topLevelNoIndent_bare :
    s.bare.topLevelNoIndent ctx.unaligned item = (s.topLevelNoIndent ctx item).bare := by
  have hemit : ({ s.bare with between := false }.newline s.nesting.base).emit ctx.unaligned item =
      (({ s with between := false }.newline s.nesting.base).emit ctx item).bare := emit_of_eq rfl
  unfold topLevelNoIndent
  rw [keepsLine_bare, content_bare]
  split
  · rfl
  · simp only [show s.bare.nesting.base = s.nesting.base from s.nesting.base_bare, hemit]
    simp only [State.newline, bare, Nesting.setClause_bare, Page.newline_bare]

theorem blockSection_bare (frame : Frame) (key : String) :
    s.bare.blockSection ctx.unaligned frame.bare item key =
      (s.blockSection ctx frame item key).bare := by
  unfold blockSection
  rw [newline_bare, show frame.bare.outer = frame.outer from rfl, emit_bare]
  generalize (s.newline frame.outer).emit ctx item = written
  simp only
  split
  · exact modifyTop_bare written fun _ => rfl
  · exact modifyTop_newline_bare written frame.base fun _ => rfl

theorem newlineKeyword_bare :
    s.bare.newlineKeyword ctx.unaligned item = (s.newlineKeyword ctx item).bare := by
  have hbetween : ({ s.bare with between := false }).content ctx.unaligned item =
      ({ s with between := false }.content ctx item).bare := content_of_eq rfl
  have hplain : (s.bare.newline s.bare.nesting.depth).emit ctx.unaligned item =
      ((s.newline s.nesting.depth).emit ctx item).bare := by
    rw [show s.bare.nesting.depth = s.nesting.depth from s.nesting.depth_bare]
    exact emit_of_eq rfl
  unfold newlineKeyword
  simp only
  rw [hbetween, keepsLine_bare, content_bare, hplain,
    show s.bare.nesting.topProcedural? = s.nesting.topProcedural?.map Frame.bare from
      s.nesting.topProcedural?_bare]
  cases s.nesting.topProcedural? with
  | none =>
    simp only [Option.map_none, show s.bare.between = s.between from rfl]
    split_ifs <;> rfl
  | some frame =>
    simp only [Option.map_some, blockSection_bare, newline_bare, emit_bare,
      show s.bare.between = s.between from rfl, show frame.bare.outer = frame.outer from rfl,
      show ctx.unaligned.dialect = ctx.dialect from rfl]
    split_ifs <;> rfl

theorem headerEnd_bare : s.bare.headerEnd ctx.unaligned item = (s.headerEnd ctx item).bare := by
  unfold headerEnd
  rw [emit_bare]
  generalize s.emit ctx item = written
  simp only [show written.bare.nesting = written.nesting.bare from rfl, Nesting.top?_bare]
  cases written.nesting.top? with
  | none => rfl
  | some frame => exact modifyTop_newline_bare written frame.base fun _ => rfl

/-- A comma counts values only where they are lined up. -/
theorem nextValue_bare (s : State) : s.bare.nextValue = s.nextValue.bare := by
  have hbare : s.bare.nextValue = s.bare := by
    unfold nextValue
    rw [show s.bare.nesting.top? = s.nesting.top?.map Frame.bare from s.nesting.top?_bare]
    cases s.nesting.top? <;> rfl
  have hvalue : s.nextValue.bare = s.bare := by
    unfold nextValue
    cases s.nesting.top?.bind (·.valueSlot) with
    | none => rfl
    | some slot =>
      obtain ⟨⟨stack, root, procedural, overflow⟩, _⟩ := s
      cases stack <;> rfl
  rw [hbare, hvalue]

theorem comma_bare : s.bare.comma ctx.unaligned item = (s.comma ctx item).bare := by
  unfold comma
  rw [emit_bare, nextValue_bare]
  generalize (s.emit ctx item).nextValue = written
  simp only [keepsLine_bare, show written.bare.nesting = written.nesting.bare from rfl,
    Nesting.clause_bare, Nesting.depth_bare, newline_bare]
  split <;> rfl

theorem semicolon_bare : s.bare.semicolon ctx.unaligned item = (s.semicolon ctx item).bare := by
  have hquery : s.bare.querySemicolon ctx.unaligned item = (s.querySemicolon ctx item).bare := by
    have hemit : { s.bare with between := false, nesting := s.bare.nesting.clear }.emit
        ctx.unaligned item = ({ s with between := false, nesting := s.nesting.clear }.emit ctx item).bare :=
      emit_of_eq (by simp [bare])
    unfold querySemicolon
    rw [hemit]
    rfl
  have hblock : ∀ n : Nesting, s.bare.blockSemicolon ctx.unaligned n.bare item =
      (s.blockSemicolon ctx n item).bare := by
    intro n
    have hemit : { s.bare with between := false, nesting := n.bare }.emit ctx.unaligned item =
        ({ s with between := false, nesting := n }.emit ctx item).bare := emit_of_eq rfl
    unfold blockSemicolon
    rw [hemit]
    generalize { s with between := false, nesting := n }.emit ctx item = written
    simp only [show written.bare.nesting = written.nesting.bare from rfl, Nesting.top?_bare]
    cases written.nesting.top? with
    | none => rfl
    | some frame =>
      exact modifyTop_newline_bare written frame.base fun _ => rfl
  unfold semicolon
  simp only [hquery, show s.bare.nesting = s.nesting.bare from rfl, Nesting.toProcedural?_bare,
    show s.nesting.bare.proceduralDepth = s.nesting.proceduralDepth from rfl]
  cases s.nesting.toProcedural? with
  | none => simp only [Option.map_none]; split <;> rfl
  | some n =>
    simp only [Option.map_some, hblock]
    split <;> rfl

theorem openBracket_bare :
    s.bare.openBracket ctx.unaligned item = (s.openBracket ctx item).bare := by
  unfold openBracket
  rw [emit_bare, show s.bare.available ctx.unaligned = s.available ctx from rfl,
    show s.bare.nesting.inInline = s.nesting.inInline from s.nesting.inInline_bare,
    show ctx.unaligned.style.alignValues = false from rfl]
  generalize (s.nesting.inInline || Groups.fitsIn item.inlineWidth (s.available ctx)) = inline
  generalize s.emit ctx item = written
  generalize htuple : (inline && ctx.style.alignValues && !s.nesting.inInline &&
    s.nesting.clause == some .values) = tuple
  cases inline with
  | true => cases tuple <;> rfl
  | false =>
    obtain rfl : tuple = false := by rw [← htuple]; rfl
    rfl

theorem openExpression_bare (opener : Opener) :
    s.bare.openExpression ctx.unaligned item opener = (s.openExpression ctx item opener).bare := by
  unfold openExpression
  rw [emit_bare, show s.bare.nesting.inInline = s.nesting.inInline from s.nesting.inInline_bare]
  rfl

theorem openProcedural_bare (opener : Opener) :
    s.bare.openProcedural ctx.unaligned item opener = (s.openProcedural ctx item opener).bare := by
  have hblock : s.bare.openBlock ctx.unaligned item opener = (s.openBlock ctx item opener).bare := by
    unfold openBlock
    simp only [show s.bare.nesting.base = s.nesting.base from s.nesting.base_bare, newline_bare]
    split_ifs <;> rw [emit_bare] <;> rfl
  have hdeclare : ∀ frame : Frame, s.bare.continueDeclare ctx.unaligned frame.bare item =
      (s.continueDeclare ctx frame item).bare := by
    intro frame
    unfold continueDeclare
    refine congrArg (State.newline · frame.base) (emit_of_eq ?_)
    exact modifyTop_newline_bare s frame.outer fun _ => rfl
  unfold openProcedural
  simp only [hblock, show s.bare.nesting = s.nesting.bare from rfl, Nesting.topProcedural?_bare]
  cases s.nesting.topProcedural? with
  | none => rfl
  | some frame =>
    simp only [Option.map_some, hdeclare]
    change (if item.token.keyText == "begin" && frame.key == "declare" then _ else _) = _
    split <;> rfl

theorem openGroup_bare : s.bare.openGroup ctx.unaligned item = (s.openGroup ctx item).bare := by
  have hskip : { s.bare with
      nesting := { s.bare.nesting with overflow := s.bare.nesting.overflow + 1 } }.content
        ctx.unaligned item =
      ({ s with nesting := { s.nesting with overflow := s.nesting.overflow + 1 } }.content ctx
        item).bare := content_of_eq rfl
  unfold openGroup
  rw [hskip, openBracket_bare, content_bare,
    show s.bare.nesting.isFull = s.nesting.isFull from s.nesting.isFull_bare,
    show ctx.unaligned.dialect = ctx.dialect from rfl]
  cases ctx.dialect.lexicon.opener? item.token.keyText with
  | none =>
    simp only
    split_ifs <;> rfl
  | some opener =>
    simp only [openProcedural_bare, openExpression_bare]
    split_ifs <;> rfl

theorem closeGroup_bare : s.bare.closeGroup ctx.unaligned item = (s.closeGroup ctx item).bare := by
  have hskip : { s.bare with
      nesting := { s.bare.nesting with overflow := s.bare.nesting.overflow - 1 } }.content
        ctx.unaligned item =
      ({ s with nesting := { s.nesting with overflow := s.nesting.overflow - 1 } }.content ctx
        item).bare := content_of_eq rfl
  unfold closeGroup
  rw [hskip, content_bare, show s.bare.nesting.overflow = s.nesting.overflow from rfl,
    show ctx.unaligned.dialect = ctx.dialect from rfl,
    show s.bare.nesting = s.nesting.bare from rfl, Nesting.close?_bare]
  cases s.nesting.close? fun f => ctx.dialect.lexicon.closes (closerKey item.token) f.key with
  | none =>
    simp only [Option.map_none]
    split <;> rfl
  | some closed =>
    obtain ⟨frame, nesting⟩ := closed
    simp only [Option.map_some]
    split
    · rfl
    · refine emit_of_eq ?_
      cases hinline : frame.inline <;> simp only [hinline, show frame.bare.inline = frame.inline from rfl] <;> rfl

theorem significant_bare (ctx : Context) (s : State) (item : Item) :
    s.bare.significant ctx.unaligned item = (s.significant ctx item).bare := by
  have hends : s.bare.endsHeader item.token = s.endsHeader item.token := by
    unfold endsHeader
    rw [show s.bare.nesting.top? = s.nesting.top?.map Frame.bare from s.nesting.top?_bare]
    cases s.nesting.top? <;> rfl
  unfold significant
  rw [hends]
  split
  · exact topLevel_bare
  · exact topLevelNoIndent_bare
  · exact newlineKeyword_bare
  · exact openGroup_bare
  · exact closeGroup_bare
  · simp only [semicolon_bare, comma_bare, content_bare]
    split_ifs <;> rfl
  · simp only [headerEnd_bare, content_bare]
    split_ifs <;> rfl
  · exact content_bare ctx s item

theorem comment_bare (ctx : Context) (s : State) (item : Item) :
    s.bare.comment ctx.unaligned item = (s.comment ctx item).bare := by
  have hbroken : s.bare.broken item = (s.broken item).bare := by
    unfold broken
    rw [show s.bare.nesting.depth = s.nesting.depth from s.nesting.depth_bare, newline_bare,
      show s.bare.page.atLineStart = s.page.atLineStart from rfl]
    split <;> rfl
  have hpage : s.bare.commentPage item = (s.commentPage item).bare := by
    unfold commentPage
    rw [hbroken, show s.bare.attaches item = s.attaches item from rfl]
    split
    · rfl
    · exact Page.advance_bare _ _
  have hwritten : s.bare.commentWritten ctx.unaligned item = (s.commentWritten ctx item).bare := by
    unfold commentWritten
    rw [hpage]
    rfl
  rw [comment_eq, comment_eq, hwritten,
    show s.bare.nesting.depth = s.nesting.depth from s.nesting.depth_bare,
    show (s.commentWritten ctx item).bare.breakAt = (s.commentWritten ctx item).breakAt from rfl]
  split <;> rfl

theorem step_bare (ctx : Context) (s : State) (item : Item) :
    s.bare.step ctx.unaligned item = (s.step ctx item).bare := by
  unfold step
  rw [comment_bare, significant_bare]
  split <;> rfl

theorem run_bare (ctx : Context) (s : State) (items : List Item) :
    s.bare.run ctx.unaligned items = (s.run ctx items).bare := by
  induction items generalizing s with
  | nil => rfl
  | cons item items ih =>
    change (s.bare.step ctx.unaligned item).run ctx.unaligned items = _
    rw [step_bare, ih]
    rfl

end State

/-- The lines that nothing is lined up in are the same, without anchors. -/
theorem linesOf_unaligned (ctx : Context) (tokens : List Token) :
    linesOf ctx.unaligned tokens = (linesOf ctx tokens).map Line.bare := by
  have hrun : State.start.run ctx.unaligned (Item.ofTokens tokens) =
      (State.start.run ctx (Item.ofTokens tokens)).bare := State.run_bare ctx .start _
  unfold linesOf
  rw [hrun, Page.lines, Page.lines, List.map_reverse, List.map_cons]
  rfl

end SqlFormat.Layout

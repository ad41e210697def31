import Mathlib
import SqlFormat.Layout
import SqlFormat.Proofs.Layout.Nesting

/-!
# One turn of layout

Laying out a token other than a comment always goes the same way: the token may be given a line of
its own, it is written, blocks are opened or closed, and the next token may be given a line. `Turn`
lists what can be decided there, for each rule of layout once, and the new state follows from that
decision. Nothing else about a rule has to be known afterwards. A comment changes the page only.

Results: `turns_significant`, `comment_eq`.
-/

namespace SqlFormat.Layout

variable {ctx : Context} {s : State} {item : Item} {page : Page}

/-! ## The page -/

namespace Page

/-- Give the next text a line of its own, or not. -/
def place (page : Page) : Option Nat → Page
  | some indent => page.newline indent
  | none => page

/-- Note an anchor, or none. -/
def note (page : Page) : Option (AnchorKind × Nat) → Page
  | some (kind, slot) => page.anchor kind slot
  | none => page

/-- Give the next text a line of its own, with empty lines before it, or not. -/
def settle (page : Page) (indent : Option Nat) (lines : Nat) : Page :=
  match indent with
  | some indent => (page.newline indent).blank lines
  | none => page

theorem place_cases (page : Page) (placed : Option Nat) :
    page.place placed = page ∨ ∃ indent, page.place placed = page.newline indent := by
  cases placed with
  | none => exact .inl rfl
  | some indent => exact .inr ⟨indent, rfl⟩

theorem settle_cases (page : Page) (settled : Option Nat) (lines : Nat) :
    page.settle settled lines = page ∨ ∃ indent lines',
      page.settle settled lines = { page with breakAt := some indent, blankLines := lines' } := by
  cases settled with
  | none => exact .inl rfl
  | some indent => exact .inr ⟨indent, _, rfl⟩

/-- No line is waiting to be started once text can be written. -/
@[simp] theorem breakAt_advance (page : Page) (space : Bool) :
    (page.advance space).breakAt = none := by
  unfold advance
  split
  · split <;> rfl
  · next h => split <;> exact h

/-- The line that text can be written on is the one that it goes to. -/
theorem lineIndent_advance (page : Page) (space : Bool) :
    (page.advance space).line.indent = page.indent := by
  unfold advance indent
  split
  · next h => split <;> simp [h, Line.empty]
  · next h => split <;> simp [h, write]

theorem newline_eq_settle (page : Page) (indent : Nat) :
    page.newline indent = page.settle (some indent) 0 := by
  simp [settle, blank]

end Page

namespace State

/-- The page after a token is written, where it was to be put on a line and an anchor was to be noted
before it. -/
def written (ctx : Context) (s : State) (item : Item) (placed : Option Nat)
    (anchor : Option (AnchorKind × Nat)) : Page :=
  (((s.page.place placed).advance (s.spaceBefore ctx item)).note anchor).write
    (ctx.decorate item.token.kind (displayText ctx item.token))
    (lastLineWidth (displayText ctx item.token))

theorem emit_eq (ctx : Context) (s : State) (item : Item) :
    s.emit ctx item =
      { s with
        page := s.written ctx item none s.pendingAnchor
        unary := s.isUnarySign item.token
        pendingAnchor := none } := by
  unfold emit dropAnchor written
  cases h : s.pendingAnchor with
  | none =>
    simp only [State.write]
    rfl
  | some anchor =>
    simp only [State.write]
    rfl

/-- No line is waiting to be started once a token is written. -/
theorem breakAt_written (ctx : Context) (s : State) (item : Item) (placed : Option Nat)
    (anchor : Option (AnchorKind × Nat)) : (s.written ctx item placed anchor).breakAt = none := by
  have hnote : ∀ page : Page, (page.note anchor).breakAt = page.breakAt := by
    intro page
    cases anchor <;> rfl
  exact (hnote _).trans (Page.breakAt_advance _ _)

/-- A token stands on the line that it is put on, and else where the last text is. -/
theorem indent_written (ctx : Context) (s : State) (item : Item) (placed : Option Nat)
    (anchor : Option (AnchorKind × Nat)) :
    (s.written ctx item placed anchor).line.indent = placed.getD s.page.indent := by
  have hnote : ∀ page : Page, (page.note anchor).line.indent = page.line.indent := by
    intro page
    cases anchor <;> rfl
  refine (hnote _).trans ((Page.lineIndent_advance _ _).trans ?_)
  cases placed <;> rfl

theorem pageIndent_written (ctx : Context) (s : State) (item : Item) (placed : Option Nat)
    (anchor : Option (AnchorKind × Nat)) :
    (s.written ctx item placed anchor).indent = placed.getD s.page.indent := by
  rw [Page.indent, breakAt_written, Option.getD_none, indent_written]

/-! ## What can be decided -/

/-- The decisions of one turn: the line that the token is put on, the anchor asked for before it, the
open blocks after it, the slot of the value that comes next, and the line and the empty lines that
are asked for after it. -/
structure Decision where
  placed : Option Nat
  anchor : Option (AnchorKind × Nat)
  nesting : Nesting
  value : Option Nat
  settled : Option Nat
  blank : Nat

/-- The state after a turn. -/
def decided (ctx : Context) (s : State) (item : Item) (d : Decision) (between : Bool) : State where
  nesting := d.nesting
  page := (s.written ctx item d.placed (d.anchor.or s.pendingAnchor)).settle d.settled d.blank
  prev := s.prev
  unary := s.isUnarySign item.token
  between := between
  pendingAnchor := d.value.map (.value, ·)

/-- The frame of a block whose opener stands on a line with this indentation. -/
def frameAt (context : BlockContext) (key : String) (outer : Nat) (inline : Bool)
    (headerEnd : Option String) (valueSlot : Option Nat) : Frame :=
  ⟨context, key, outer, outer + 1, inline, none, headerEnd, valueSlot⟩

/-- What layout may decide for a token. -/
inductive Turn (ctx : Context) (s : State) (item : Item) : Decision → Prop
  /-- The token has no effect but to be written. -/
  | content (hopen : isOpeningBracket item.token = false)
      (hclose : item.token.kind = .closeParen → s.nesting.overflow = 0 ∧
        s.nesting.close? (fun f => ctx.dialect.lexicon.closes (closerKey item.token) f.key) = none) :
      Turn ctx s item ⟨none, s.anchorFor? ctx item.token, s.nesting, none, none, 0⟩
  /-- An opener gets no frame. -/
  | skipOpener (hkind : item.token.kind = .openParen) (hfull : s.nesting.isFull = true) :
      Turn ctx s item ⟨none, s.anchorFor? ctx item.token,
        { s.nesting with overflow := s.nesting.overflow + 1 }, none, none, 0⟩
  /-- A closer belongs to an opener without a frame. -/
  | skipCloser (hkind : item.token.kind = .closeParen) (hover : 0 < s.nesting.overflow) :
      Turn ctx s item ⟨none, s.anchorFor? ctx item.token,
        { s.nesting with overflow := s.nesting.overflow - 1 }, none, none, 0⟩
  /-- A clause starts or ends. -/
  | clause (hkind : item.token.kind.breaksInlineGroup = true) (hkeeps : s.keepsLine = false)
      (clause : Option Clause) :
      Turn ctx s item ⟨some s.nesting.base, none, s.nesting.setClause clause, none,
        some (s.nesting.base + clause.isSome.toNat), 0⟩
  /-- A keyword starts a line in a clause. -/
  | line (hkind : item.token.kind.breaksInlineGroup = true) (hkeeps : s.keepsLine = false) :
      Turn ctx s item ⟨some s.nesting.depth, none, s.nesting, none, none, 0⟩
  /-- A keyword starts a line where the block ends. -/
  | last {f : Frame} (hframe : s.nesting.topProcedural? = some f) :
      Turn ctx s item ⟨some f.outer, none, s.nesting, none, none, 0⟩
  /-- A keyword starts a new header of the block. -/
  | header {f : Frame} (hframe : s.nesting.topProcedural? = some f) :
      Turn ctx s item ⟨some f.outer, none,
        s.nesting.modifyTop fun f => { f with clause := none, headerEnd := some "then" },
        none, none, 0⟩
  /-- A keyword starts a new section of the block. -/
  | division {f : Frame} (hframe : s.nesting.topProcedural? = some f) :
      Turn ctx s item ⟨some f.outer, none,
        s.nesting.modifyTop fun f => { f with clause := none }, none, some f.base, 0⟩
  /-- The header of the block ends. -/
  | headerEnd {f : Frame} (hframe : s.nesting.top? = some f) (hheader : f.headerEnd.isSome = true) :
      Turn ctx s item ⟨none, none,
        s.nesting.modifyTop fun f => { f with headerEnd := none }, none, some f.base, 0⟩
  /-- A comma that ends no line. -/
  | comma (hkind : item.token.isOperator "," = true) :
      Turn ctx s item ⟨none, none, s.nesting, none, none, 0⟩
  /-- A comma that ends the line. -/
  | commaLine (hkind : item.token.isOperator "," = true) (hkeeps : s.keepsLine = false) :
      Turn ctx s item ⟨none, none, s.nesting, none, some s.nesting.depth, 0⟩
  /-- A comma in a tuple whose values are lined up. -/
  | value {f : Frame} {slot : Nat} (hkind : item.token.isOperator "," = true)
      (hframe : s.nesting.top? = some f) (hslot : f.valueSlot = some slot)
      {settled : Option Nat}
      (hsettled : settled = none ∨ s.keepsLine = false ∧ settled = some s.nesting.depth) :
      Turn ctx s item ⟨none, none,
        s.nesting.modifyTop fun f => { f with valueSlot := some (slot + 1) },
        some (slot + 1), settled, 0⟩
  /-- A semicolon in a procedural block. -/
  | statement {n : Nesting} {f : Frame} (hkind : item.token.isOperator ";" = true)
      (hblock : s.nesting.toProcedural? = some n) (hframe : n.top? = some f) :
      Turn ctx s item ⟨none, none,
        n.modifyTop fun f => { f with clause := none, headerEnd := none }, none, some f.base, 0⟩
  /-- A semicolon outside all procedural blocks. -/
  | query (hkind : item.token.isOperator ";" = true) (hdepth : s.nesting.proceduralDepth = 0 ∨
      s.nesting.toProcedural? = none) :
      Turn ctx s item ⟨none, none, s.nesting.clear, none, some 0, ctx.style.linesBetweenQueries⟩
  /-- An opening bracket. -/
  | bracket (hopen : isOpeningBracket item.token = true) (hfull : s.nesting.isFull = false)
      {inline tuple : Bool}
      (hinline : inline =
        (s.nesting.inInline || Groups.fitsIn item.inlineWidth (s.available ctx)))
      (htuple : tuple = (inline && ctx.style.alignValues && !s.nesting.inInline &&
        s.nesting.clause == some .values)) :
      Turn ctx s item ⟨none, none,
        s.nesting.push (frameAt .paren item.token.text s.page.indent inline none
          (if tuple then some 0 else none)),
        if tuple then some 0 else none,
        if inline then none else some (s.page.indent + 1), 0⟩
  /-- The opener of an expression. -/
  | expression (hkind : item.token.kind = .openParen) (hbracket : item.token.isBracket = false)
      (hfull : s.nesting.isFull = false) {context : BlockContext} (hcontext : context ≠ .procedural) :
      Turn ctx s item ⟨none, none,
        s.nesting.push (frameAt context item.token.keyText s.page.indent s.nesting.inInline none none),
        none, none, 0⟩
  /-- The keyword that follows the declarations of a block. -/
  | declared {f : Frame} (hframe : s.nesting.topProcedural? = some f) (key : String) :
      Turn ctx s item ⟨some f.outer, none,
        s.nesting.modifyTop fun f => { f with key := key, clause := none }, none, some f.base, 0⟩
  /-- The opener of a procedural block. -/
  | block (hkind : item.token.kind = .openParen) (hbracket : item.token.isBracket = false)
      (hfull : s.nesting.isFull = false) {placed : Option Nat}
      (hplaced : placed = none ∨ placed = some s.nesting.base) (headerEnd : Option String) :
      Turn ctx s item ⟨placed, none,
        s.nesting.push (frameAt .procedural item.token.keyText (placed.getD s.page.indent) false
          headerEnd none),
        none, if headerEnd.isNone then some (placed.getD s.page.indent + 1) else none, 0⟩
  /-- A closer. -/
  | close (hkind : item.token.kind = .closeParen) (hover : s.nesting.overflow = 0) {f : Frame}
      {n : Nesting}
      (hclose : s.nesting.close?
        (fun f => ctx.dialect.lexicon.closes (closerKey item.token) f.key) = some (f, n)) :
      Turn ctx s item ⟨if f.inline then none else some f.outer, none, n, none, none, 0⟩

/-! ## Every rule is a turn -/

/-- The state is one that a turn may lead to. -/
def Turns (ctx : Context) (s : State) (item : Item) (s' : State) : Prop :=
  ∃ d, Turn ctx s item d ∧ s' = s.decided ctx item d s'.between

theorem turns_content (hopen : isOpeningBracket item.token = false)
    (hclose : item.token.kind = .closeParen → s.nesting.overflow = 0 ∧
      s.nesting.close? (fun f => ctx.dialect.lexicon.closes (closerKey item.token) f.key) = none)
    (between : Bool) : Turns ctx s item ({ s with between := between }.content ctx item) := by
  refine ⟨_, .content hopen hclose, ?_⟩
  rw [content, emit_eq]
  rfl

theorem turns_topLevel (hkind : item.token.kind = .reservedTopLevel) :
    Turns ctx s item (s.topLevel ctx item) := by
  unfold topLevel
  split
  · exact turns_content (by simp [isOpeningBracket, hkind]) (by simp [hkind]) s.between
  · next h =>
    refine ⟨_, .clause (by simp [hkind, TokenKind.breaksInlineGroup]) (by simpa using h)
      (some (.ofKey item.token.keyText)), ?_⟩
    simp only [State.newline, emit_eq, Page.newline_eq_settle _ (s.nesting.base + 1)]
    rfl

theorem turns_topLevelNoIndent (hkind : item.token.kind = .reservedTopLevelNoIndent) :
    Turns ctx s item (s.topLevelNoIndent ctx item) := by
  unfold topLevelNoIndent
  split
  · exact turns_content (by simp [isOpeningBracket, hkind]) (by simp [hkind]) s.between
  · next h =>
    refine ⟨_, .clause (by simp [hkind, TokenKind.breaksInlineGroup]) (by simpa using h) none, ?_⟩
    simp only [State.newline, emit_eq]
    rw [Page.newline_eq_settle (State.written ..)]
    rfl

theorem turns_newlineKeyword (hkind : item.token.kind = .reservedNewline) :
    Turns ctx s item (s.newlineKeyword ctx item) := by
  have hopen : isOpeningBracket item.token = false := by simp [isOpeningBracket, hkind]
  have hbreaks : item.token.kind.breaksInlineGroup = true := by
    simp [hkind, TokenKind.breaksInlineGroup]
  unfold newlineKeyword
  simp only
  split
  · exact turns_content hopen (by simp [hkind]) false
  · split
    · exact turns_content hopen (by simp [hkind]) s.between
    · next hkeeps =>
      have hline : Turns ctx s item ((s.newline s.nesting.depth).emit ctx item) := by
        refine ⟨_, .line hbreaks (by simpa using hkeeps), ?_⟩
        rw [emit_eq]
        rfl
      split
      · next f hframe =>
        split
        · unfold blockSection
          simp only
          split
          · refine ⟨_, .header hframe, ?_⟩
            simp only [emit_eq]
            rfl
          · refine ⟨_, .division hframe, ?_⟩
            simp only [State.newline, emit_eq]
            rw [Page.newline_eq_settle (State.written ..)]
            rfl
        · split
          · refine ⟨_, .last hframe, ?_⟩
            rw [emit_eq]
            rfl
          · exact hline
      · exact hline

theorem turns_headerEnd (hends : s.endsHeader item.token = true) :
    Turns ctx s item (s.headerEnd ctx item) := by
  unfold endsHeader at hends
  unfold headerEnd
  rw [emit_eq]
  simp only
  cases hframe : s.nesting.top? with
  | none => simp [hframe] at hends
  | some f =>
    refine ⟨_, .headerEnd hframe ?_, ?_⟩
    · cases h : f.headerEnd with
      | none => simp [hframe, h] at hends
      | some key => rfl
    · simp only [State.newline, Page.newline_eq_settle]
      rfl

theorem turns_comma (hkind : item.token.isOperator "," = true) :
    Turns ctx s item (s.comma ctx item) := by
  unfold comma
  rw [emit_eq]
  unfold nextValue
  cases hslot : s.nesting.top?.bind (·.valueSlot) with
  | none =>
    simp only
    split
    · exact ⟨_, .comma hkind, rfl⟩
    · next hkeeps =>
      simp only [Bool.or_eq_true, not_or, Bool.not_eq_true] at hkeeps
      refine ⟨_, .commaLine hkind hkeeps.1, ?_⟩
      simp only [State.newline, Page.newline_eq_settle]
      rfl
  | some slot =>
    obtain ⟨f, hframe, hvalue⟩ := Option.bind_eq_some_iff.mp hslot
    simp only
    split
    · exact ⟨_, .value hkind hframe hvalue (.inl rfl), rfl⟩
    · next hkeeps =>
      obtain ⟨hinline, hheader, hdepth⟩ := s.nesting.modifyTop_value (some (slot + 1))
      simp only [Bool.or_eq_true, not_or, Bool.not_eq_true, keepsLine, hinline, hheader] at hkeeps
      refine ⟨_, .value hkind hframe hvalue (.inr ⟨by simp [keepsLine, hkeeps.1], rfl⟩), ?_⟩
      simp only [State.newline, Page.newline_eq_settle, hdepth]
      rfl

theorem turns_semicolon (hkind : item.token.isOperator ";" = true) :
    Turns ctx s item (s.semicolon ctx item) := by
  have hquery : (s.nesting.proceduralDepth = 0 ∨ s.nesting.toProcedural? = none) →
      Turns ctx s item (s.querySemicolon ctx item) := by
    intro hdepth
    refine ⟨_, .query hkind hdepth, ?_⟩
    rw [querySemicolon, emit_eq]
    rfl
  unfold semicolon
  split
  · split
    · next n hblock =>
      obtain ⟨-, f, rest, -, -, -, -, hstack⟩ := Nesting.toProcedural?_eq_some hblock
      have hframe : n.top? = some f := Nesting.top?_eq_some.mpr ⟨rest, hstack⟩
      refine ⟨_, .statement hkind hblock hframe, ?_⟩
      rw [blockSemicolon, emit_eq]
      simp only [hframe, State.newline, Page.newline_eq_settle]
      rfl
    · next hblock => exact hquery (.inr hblock)
  · next hdepth => exact hquery (.inl (by omega))

theorem turns_openBracket (hopen : isOpeningBracket item.token = true)
    (hfull : s.nesting.isFull = false) : Turns ctx s item (s.openBracket ctx item) := by
  refine ⟨_, .bracket hopen hfull rfl rfl, ?_⟩
  rw [openBracket, emit_eq]
  simp only [pageIndent_written, Option.getD_none]
  generalize (s.nesting.inInline || Groups.fitsIn item.inlineWidth (s.available ctx)) = inline
  generalize hslot : (inline && ctx.style.alignValues && !s.nesting.inInline &&
    s.nesting.clause == some .values) = tuple
  cases inline with
  | true => cases tuple <;> rfl
  | false =>
    obtain rfl : tuple = false := by rw [← hslot]; rfl
    simp only [Bool.false_eq_true, if_false, State.newline, Page.newline_eq_settle]
    rfl

theorem turns_openExpression (hkind : item.token.kind = .openParen)
    (hbracket : item.token.isBracket = false) (hfull : s.nesting.isFull = false) {opener : Opener}
    (hcontext : opener.context ≠ .procedural) :
    Turns ctx s item (s.openExpression ctx item opener) := by
  refine ⟨_, .expression hkind hbracket hfull hcontext, ?_⟩
  rw [openExpression, emit_eq]
  simp only [pageIndent_written, Option.getD_none]
  rfl

theorem turns_openBlock (hkind : item.token.kind = .openParen)
    (hbracket : item.token.isBracket = false) (hfull : s.nesting.isFull = false) (opener : Opener) :
    Turns ctx s item (s.openBlock ctx item opener) := by
  obtain ⟨placed, hplaced, hplace⟩ : ∃ placed, (placed = none ∨ placed = some s.nesting.base) ∧
      (if item.token.keyText == "begin" || item.token.keyText == "declare" then
        s.newline s.nesting.base else s) = { s with page := s.page.place placed } := by
    split
    · exact ⟨some s.nesting.base, .inr rfl, rfl⟩
    · exact ⟨none, .inl rfl, rfl⟩
  have hwritten : { s with page := s.page.place placed }.written ctx item none s.pendingAnchor =
    s.written ctx item placed s.pendingAnchor := rfl
  refine ⟨_, .block hkind hbracket hfull hplaced opener.headerEnd, ?_⟩
  rw [openBlock, hplace, emit_eq]
  simp only [hwritten, pageIndent_written]
  cases opener.headerEnd with
  | none =>
    simp only [Option.isNone_none, if_true, State.newline, Page.newline_eq_settle]
    rfl
  | some key => rfl

theorem turns_openProcedural (hkind : item.token.kind = .openParen)
    (hbracket : item.token.isBracket = false) (hfull : s.nesting.isFull = false) (opener : Opener) :
    Turns ctx s item (s.openProcedural ctx item opener) := by
  unfold openProcedural
  split
  · next f hframe =>
    split
    · refine ⟨_, .declared hframe item.token.keyText, ?_⟩
      rw [continueDeclare, emit_eq]
      simp only [State.newline]
      rw [Page.newline_eq_settle (State.written ..)]
      rfl
    · exact turns_openBlock hkind hbracket hfull opener
  · exact turns_openBlock hkind hbracket hfull opener

theorem turns_openGroup (hkind : item.token.kind = .openParen) :
    Turns ctx s item (s.openGroup ctx item) := by
  unfold openGroup
  split
  · next hfull =>
    refine ⟨_, .skipOpener hkind hfull, ?_⟩
    rw [content, emit_eq]
    rfl
  · next hfull =>
    have hroom : s.nesting.isFull = false := by simpa using hfull
    split
    · next hb => exact turns_openBracket (by simp [isOpeningBracket, hkind, hb]) hroom
    · next hb =>
      have hbracket : item.token.isBracket = false := by simpa using hb
      split
      · exact turns_content (by simp [isOpeningBracket, hbracket]) (by simp [hkind]) s.between
      · next opener _ =>
        split
        · exact turns_openProcedural hkind hbracket hroom opener
        · next hcontext =>
          exact turns_openExpression hkind hbracket hroom (by simpa using hcontext)

theorem turns_closeGroup (hkind : item.token.kind = .closeParen) :
    Turns ctx s item (s.closeGroup ctx item) := by
  unfold closeGroup
  split
  · next hover =>
    refine ⟨_, .skipCloser hkind hover, ?_⟩
    rw [content, emit_eq]
    rfl
  · next hover =>
    split
    · next hclose =>
      exact turns_content (by simp [isOpeningBracket, hkind]) (fun _ => ⟨by omega, hclose⟩) s.between
    · next f n hclose =>
      refine ⟨_, .close hkind (by omega) hclose, ?_⟩
      rw [emit_eq]
      cases f.inline <;> rfl

/-- Every token other than a comment is laid out in a turn. -/
theorem turns_significant (ctx : Context) (s : State) (item : Item) :
    Turns ctx s item (s.significant ctx item) := by
  have hcontent : item.token.kind ≠ .openParen → item.token.kind ≠ .closeParen →
      Turns ctx s item (s.content ctx item) := fun ho hc =>
    turns_content (by simp [isOpeningBracket, ho]) (fun h => absurd h hc) s.between
  unfold significant
  split
  · next hkind => exact turns_topLevel hkind
  · next hkind => exact turns_topLevelNoIndent hkind
  · next hkind => exact turns_newlineKeyword hkind
  · next hkind => exact turns_openGroup hkind
  · next hkind => exact turns_closeGroup hkind
  · next hkind =>
    split
    · next htext => exact turns_semicolon (by simpa [Token.isOperator, hkind] using htext)
    · split
      · next htext => exact turns_comma (by simpa [Token.isOperator, hkind] using htext)
      · exact hcontent (by simp [hkind]) (by simp [hkind])
  · next hkind =>
    split
    · next hends => exact turns_headerEnd hends
    · exact hcontent (by simp [hkind]) (by simp [hkind])
  · next hopen hclose _ _ => exact hcontent hopen hclose

/-! ## A comment -/

/-- The comment stays on the line of what is before it, although a line is about to start. -/
def attaches (s : State) (item : Item) : Bool :=
  !item.startsLine && s.page.atLineStart && !s.page.line.text.isEmpty

/-- The state from which a comment that does not so stay is written. -/
def broken (s : State) (item : Item) : State :=
  if item.startsLine && !s.page.atLineStart then s.newline s.nesting.depth else s

/-- The page on which a comment is written, the blanks before it included. -/
def commentPage (s : State) (item : Item) : Page :=
  if s.attaches item then s.page.write " " 1 else (s.broken item).page.advance true

/-- The page with a comment on it. -/
def commentWritten (ctx : Context) (s : State) (item : Item) : Page :=
  let text := commentText ctx item.token (s.commentPage item).line.indent
  (s.commentPage item).write (ctx.decorate item.token.kind text) (lastLineWidth text)

/-- A comment changes nothing but the page. -/
theorem comment_eq (ctx : Context) (s : State) (item : Item) :
    s.comment ctx item = { s with
      page := if item.endsLine && (s.commentWritten ctx item).breakAt.isNone then
          (s.commentWritten ctx item).newline s.nesting.depth
        else s.commentWritten ctx item } := by
  unfold comment commentWritten commentPage broken
  by_cases ha : s.attaches item = true
  · have ha' : (!item.startsLine && s.page.atLineStart && !s.page.line.text.isEmpty) = true := ha
    simp only [ha, ha', if_true, State.write]
    split_ifs <;> rfl
  · have ha' : ¬(!item.startsLine && s.page.atLineStart && !s.page.line.text.isEmpty) = true := ha
    simp only [ha, ha', State.write]
    by_cases hb : (item.startsLine && !s.page.atLineStart) = true
    · simp only [hb, if_true]
      split_ifs <;> rfl
    · simp only [hb]
      split_ifs <;> rfl

end State

end SqlFormat.Layout

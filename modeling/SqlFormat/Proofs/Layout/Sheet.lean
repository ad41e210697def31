import Mathlib
import SqlFormat.Proofs.Layout.Alignment
import SqlFormat.Proofs.Layout.Anchors
import SqlFormat.Proofs.Layout.Spelling

/-!
# The cells of a page

The pieces that a page is spelt out from fall into lines: each line is written from some of them, its
cells, and the line feeds and the margin before it belong to the blanks of the first. Anchors stand
right before the texts of cells, so spaces put in at anchors widen the blanks between pieces and touch
nothing else.

Results: `laid_of_trace` (a run), `Laid.widened` (alignment).
-/

namespace SqlFormat.Layout

open Text

/-! ## Lines and their cells -/

/-- Spaces may come before the token. They do not make it a bracket that stands apart: it is no opening
bracket, or it does not matter to layout whether it stands apart. And it is not a word behind the percent
sign of an attribute. -/
structure Paddable (before : Option Token) (token : Token) : Prop where
  bracket : isOpeningBracket token = true → ∀ a ∈ before,
    a.kind.isComment = true ∨ a.kind = .operator ∨ isOpeningBracket a = true
  word : token.kind = .word → ∀ a ∈ before, a.isOperator "%" = false

theorem paddable_none (token : Token) : Paddable none token :=
  ⟨by simp, by simp⟩

/-- The line is written from cells, and its anchors stand before the texts of cells. -/
structure Line.Cut (line : Line) (cells : List Piece) : Prop where
  text : line.text.toList = spell cells []
  ne_nil : ∀ p ∈ cells, p.text ≠ []
  anchors : ∀ a ∈ line.anchors, ∃ before p after, cells = before ++ p :: after ∧
    a.offset = byteLength (spell before [] ++ p.gap) ∧ Paddable (lastToken none before) p.token

theorem Line.cut_empty (indent : Nat) : (Line.empty indent).Cut [] where
  text := rfl
  ne_nil := by simp
  anchors := by simp [Line.empty]

namespace Line.Cut

variable {line : Line} {cells : List Piece}

theorem eq_nil_iff (h : line.Cut cells) : cells = [] ↔ line.text = "" := by
  rw [← String.toList_inj, h.text]
  constructor
  · rintro rfl
    rfl
  · intro habs
    cases cells with
    | nil => rfl
    | cons p ps =>
      have := h.ne_nil p (by simp)
      simp [spell, this] at habs

/-- One cell more, with an anchor before its text or none. -/
theorem add (h : line.Cut cells) {gap text : String} (hne : text ≠ "") (token : Token)
    {line' : Line} (htext : line'.text = line.text ++ gap ++ text)
    (hanchors : ∀ a ∈ line'.anchors, a ∈ line.anchors ∨
      a.offset = (line.text ++ gap).utf8ByteSize ∧ Paddable (lastToken none cells) token) :
    line'.Cut (cells ++ [⟨gap.toList, token, text.toList⟩]) where
  text := by
    rw [spell_concat, ← h.text, htext, String.toList_append, String.toList_append,
      List.append_assoc]
  ne_nil p hp := by
    rcases List.mem_append.mp hp with hold | hnew
    · exact h.ne_nil p hold
    · obtain rfl := List.mem_singleton.mp hnew
      intro habs
      exact hne (String.toList_inj.mp habs)
  anchors a ha := by
    rcases hanchors a ha with hold | hnew
    · obtain ⟨before, p, after, rfl, hanchor⟩ := h.anchors a hold
      exact ⟨before, p, after ++ [⟨gap.toList, token, text.toList⟩], by simp, hanchor⟩
    · refine ⟨cells, _, [], rfl, ?_, hnew.2⟩
      rw [hnew.1, ← h.text, ← String.toList_append, Lexer.byteLength_eq, String.ofList_toList]

end Line.Cut

/-! ## Pages and their pieces -/

/-- A line with its cells. -/
abbrev Row := Line × List Piece

/-- The pieces of lines, where so many line feeds come before the first line. -/
def assemble (unit : String) (feeds : Nat) : List Row → List Piece
  | [] => []
  | (_, []) :: rows => assemble unit (feeds + 1) rows
  | (line, p :: ps) :: rows =>
    { p with gap := List.replicate feeds '\n' ++ margin unit line.indent ++ p.gap } :: ps ++
      assemble unit 1 rows

/-- The line feeds before the next line. -/
def feedsAfter (feeds : Nat) : List Row → Nat
  | [] => feeds
  | (_, []) :: rows => feedsAfter (feeds + 1) rows
  | (_, _ :: _) :: rows => feedsAfter 1 rows

theorem assemble_append (unit : String) (feeds : Nat) (rows more : List Row) :
    assemble unit feeds (rows ++ more) =
      assemble unit feeds rows ++ assemble unit (feedsAfter feeds rows) more := by
  fun_induction assemble unit feeds rows with
  | case1 => rfl
  | case2 _ _ _ ih => exact ih
  | case3 feeds line p ps rows ih =>
    rw [List.cons_append, assemble, ih, feedsAfter]
    simp

theorem feedsAfter_append (feeds : Nat) (rows more : List Row) :
    feedsAfter feeds (rows ++ more) = feedsAfter (feedsAfter feeds rows) more := by
  fun_induction feedsAfter feeds rows with
  | case1 => rfl
  | case2 _ _ _ ih => exact ih
  | case3 _ _ _ _ _ ih => exact ih

theorem feedsAfter_blank (feeds n : Nat) (line : Line) :
    feedsAfter feeds (List.replicate n (line, [])) = feeds + n := by
  induction n generalizing feeds with
  | zero => rfl
  | succ n ih =>
    rw [List.replicate_succ, feedsAfter, ih]
    omega

/-- The pieces are those of the lines of the page. -/
structure Laid (unit : String) (page : Page) (ps : List Piece) (rows : List Row)
    (cells : List Piece) : Prop where
  done : page.done.reverse = rows.map Prod.fst
  cuts : ∀ row ∈ rows, row.1.Cut row.2
  line : page.line.Cut cells
  pieces : ps = assemble unit 0 (rows ++ [(page.line, cells)])
  start : cells = [] → rows = [] ∧ page.line.indent = 0

namespace Laid

variable {unit : String} {page : Page} {ps : List Piece} {rows : List Row} {cells : List Piece}

theorem of_page (h : Laid unit page ps rows cells) {page' : Page} (hdone : page'.done = page.done)
    (hline : page'.line = page.line) : Laid unit page' ps rows cells := by
  obtain ⟨done, cuts, line, pieces, start⟩ := h
  exact ⟨hdone ▸ done, cuts, hline ▸ line, hline ▸ pieces, hline ▸ start⟩

/-- One cell more on the line that is being written. -/
theorem add_cell (h : Laid unit page ps rows cells) (gap : String) {text : String} (hne : text ≠ "")
    (hgap : page.line.text = "" → gap = "") (token : Token) {page' : Page}
    (hdone : page'.done = page.done) (hindent : page'.line.indent = page.line.indent)
    (htext : page'.line.text = page.line.text ++ gap ++ text)
    (hanchors : ∀ a ∈ page'.line.anchors, a ∈ page.line.anchors ∨
      a.offset = (page.line.text ++ gap).utf8ByteSize ∧ Paddable (lastToken none cells) token) :
    Laid unit page' (ps ++ [⟨gap.toList, token, text.toList⟩]) rows
      (cells ++ [⟨gap.toList, token, text.toList⟩]) where
  done := by rw [hdone, h.done]
  cuts := h.cuts
  line := h.line.add hne token htext hanchors
  pieces := by
    rw [h.pieces, assemble_append, assemble_append]
    cases hcells : cells with
    | nil =>
      obtain ⟨rfl, hzero⟩ := h.start hcells
      obtain rfl := hgap (h.line.eq_nil_iff.mp hcells)
      simp [assemble, feedsAfter, hindent, hzero, margin_zero]
    | cons p qs => simp [assemble, hindent]
  start habs := by simp at habs

/-- A cell on a line of its own, when there is no other line. -/
theorem add_first (h : Laid unit page ps rows cells) (hempty : page.line.text = "") {text : String}
    (hne : text ≠ "") (token : Token) (indent : Nat) {page' : Page} (hdone : page'.done = page.done)
    (hindent : page'.line.indent = indent) (htext : page'.line.text = text)
    (hanchors : ∀ a ∈ page'.line.anchors, a ∈ page.line.anchors ∨ a.offset = 0) :
    Laid unit page' (ps ++ [⟨margin unit indent, token, text.toList⟩]) []
      [⟨[], token, text.toList⟩] := by
  have hcells := h.line.eq_nil_iff.mpr hempty
  obtain ⟨rfl, hzero⟩ := h.start hcells
  subst hcells
  have hline : page'.line.Cut ([] ++ [⟨"".toList, token, text.toList⟩]) := by
    refine h.line.add hne token (by simpa [hempty] using htext) fun a ha => ?_
    exact (hanchors a ha).imp_right fun hzero => ⟨by simpa [hempty] using hzero, paddable_none token⟩
  refine ⟨by simpa [hdone] using h.done, by simp, hline, ?_, by simp⟩
  rw [h.pieces]
  simp [assemble, hindent]

/-- A cell on a line of its own, behind the others. -/
theorem add_line (h : Laid unit page ps rows cells) (hwritten : page.line.text ≠ "") {text : String}
    (hne : text ≠ "") (token : Token) (indent : Nat) {page' : Page}
    (hdone : page'.done = List.replicate page.blankLines (.empty 0) ++ page.line :: page.done)
    (hindent : page'.line.indent = indent) (htext : page'.line.text = text)
    (hanchors : ∀ a ∈ page'.line.anchors, a.offset = 0) :
    Laid unit page'
      (ps ++ [⟨List.replicate (page.blankLines + 1) '\n' ++ margin unit indent, token, text.toList⟩])
      (rows ++ [(page.line, cells)] ++ List.replicate page.blankLines (.empty 0, []))
      [⟨[], token, text.toList⟩] := by
  have hcells : cells ≠ [] := fun habs => hwritten (h.line.eq_nil_iff.mp habs)
  have hline : page'.line.Cut ([] ++ [⟨"".toList, token, text.toList⟩]) := by
    refine (Line.cut_empty 0).add hne token (by simpa using htext) fun a ha => ?_
    exact .inr ⟨by simpa using hanchors a ha, paddable_none token⟩
  refine ⟨?_, ?_, hline, ?_, by simp⟩
  · simp [hdone, h.done]
  · intro row hrow
    rcases List.mem_append.mp hrow with hrow | hrow
    · rcases List.mem_append.mp hrow with hrow | hrow
      · exact h.cuts row hrow
      · obtain rfl := List.mem_singleton.mp hrow
        exact h.line
    · rw [List.eq_of_mem_replicate hrow]
      exact Line.cut_empty 0
  · obtain ⟨p, qs, rfl⟩ := List.exists_cons_of_ne_nil hcells
    have hfeeds : feedsAfter 0 (rows ++ [(page.line, p :: qs)] ++
        List.replicate page.blankLines (.empty 0, [])) = 1 + page.blankLines := by
      rw [feedsAfter_append, feedsAfter_append, feedsAfter_blank]
      rfl
    have hblank : ∀ feeds n : Nat, assemble unit feeds (List.replicate n (Line.empty 0, [])) = [] := by
      intro feeds n
      induction n generalizing feeds with
      | zero => rfl
      | succ n ih => rw [List.replicate_succ, assemble, ih]
    rw [assemble_append, hfeeds, assemble_append, hblank, ← h.pieces, List.append_nil]
    simp [assemble, hindent, Nat.add_comm]

theorem mem_note {anchor : Option (AnchorKind × Nat)} :
    ∀ a ∈ (page.note anchor).line.anchors, a ∈ page.line.anchors ∨
      a.offset = page.line.text.utf8ByteSize ∧ anchor.isSome = true := by
  intro a ha
  cases anchor with
  | none => exact .inl ha
  | some place =>
    refine (List.mem_append.mp ha).imp_right fun hnew => ⟨?_, rfl⟩
    rw [List.mem_singleton.mp hnew]

/-- Text on the page is one piece more. -/
theorem exists_write (h : Laid unit page ps rows cells) {text : String} (hne : text ≠ "")
    (token : Token) (space : Bool) (anchor : Option (AnchorKind × Nat))
    (hpad : anchor.isSome = true → Paddable (lastToken none cells) token) (width : Nat) :
    ∃ rows' cells', Laid unit (((page.advance space).note anchor).write text width)
      (ps ++ [⟨page.gap unit space, token, text.toList⟩]) rows' cells' ∧
      lastToken none cells' = some token := by
  have hwrite : ∀ base : Page, (base.note anchor).write text width =
      { base with line := { base.line with
        text := base.line.text ++ text
        width := ((base.note anchor).write text width).line.width
        anchors := (base.note anchor).line.anchors } } := by
    intro base
    cases anchor <;> rfl
  rw [hwrite]
  unfold Page.advance Page.gap
  cases page.breakAt with
  | none =>
    by_cases hspace : (space && !page.line.text.isEmpty) = true
    · rw [if_pos hspace, if_pos hspace]
      have hline : page.line.text ≠ "" := by
        simp only [Bool.and_eq_true, Bool.not_eq_true', String.isEmpty_eq_false_iff] at hspace
        exact hspace.2
      exact ⟨_, _, h.add_cell " " hne (fun habs => absurd habs hline) token rfl rfl rfl
        fun a ha => (mem_note a ha).imp_right fun hnew => ⟨hnew.1, hpad hnew.2⟩,
        lastToken_concat _ _⟩
    · rw [if_neg hspace, if_neg hspace]
      refine ⟨_, _, h.add_cell "" hne (fun _ => rfl) token rfl rfl (by simp) fun a ha => ?_,
        lastToken_concat _ _⟩
      exact (mem_note a ha).imp_right fun hnew => ⟨by simpa using hnew.1, hpad hnew.2⟩
  | some indent =>
    by_cases hempty : page.line.text = ""
    · have htrue : page.line.text.isEmpty = true := by simp [hempty]
      simp only [htrue, if_true]
      refine ⟨_, _, h.add_first hempty hne token indent rfl rfl (by simp [hempty]) ?_, rfl⟩
      intro a ha
      exact (mem_note a ha).imp_right fun hnew => by simpa [hempty] using hnew.1
    · have hfalse : page.line.text.isEmpty = false := by simpa using hempty
      simp only [hfalse, Bool.false_eq_true, if_false]
      refine ⟨_, _, h.add_line hempty hne token indent rfl rfl (by simp) ?_, rfl⟩
      intro a ha
      rcases mem_note a ha with hold | hnew
      · cases hold
      · exact hnew.1

/-- A comment that stays on a line that is about to end. -/
theorem exists_attach (h : Laid unit page ps rows cells) (hline : page.line.text ≠ "")
    {text : String} (hne : text ≠ "") (token : Token) (width : Nat) :
    ∃ rows' cells', Laid unit ((page.write " " 1).write text width)
      (ps ++ [⟨[' '], token, text.toList⟩]) rows' cells' ∧ lastToken none cells' = some token :=
  ⟨_, _, h.add_cell " " hne (fun habs => absurd habs hline) token rfl rfl rfl
    fun _ ha => .inl ha, lastToken_concat _ _⟩

end Laid

/-! ## Runs -/

variable {ctx : Context} {s : State} {item : Item} {ps : List Piece} {p : Piece}

theorem laid_start (unit : String) : Laid unit Page.start [] [] [] where
  done := rfl
  cuts := by simp
  line := Line.cut_empty 0
  pieces := rfl
  start _ := ⟨rfl, rfl⟩

/-- What the state remembers of the last cell of the line: an anchor waits only behind a comma or an
opening bracket. -/
structure State.Remembers (s : State) (cells : List Piece) : Prop where
  prev : ∀ a ∈ lastToken none cells, a.kind.isComment = false → s.prev = some a
  pending : s.pendingAnchor.isSome = true →
    ∃ a, s.prev = some a ∧ (a.isOperator "," = true ∨ isOpeningBracket a = true)

theorem State.remembers_start : State.start.Remembers [] := by
  constructor <;> simp [State.start]

/-- An anchor before a bracket or a word has been waiting. -/
theorem State.Remembers.exists_prev {cells : List Piece} (h : s.Remembers cells)
    (hkind : item.token.kind = .openParen ∨ item.token.kind = .word)
    (hanchor : (s.placed ctx item).pendingAnchor.isSome = true) {b : Token}
    (hb : b ∈ lastToken none cells) (hcomment : b.kind.isComment = false) :
    b.isOperator "," = true ∨ isOpeningBracket b = true := by
  have hnone : (s.sight ctx item.token).anchor = none := by
    rcases hkind with hkind | hkind <;>
      simp [State.sight, State.anchorFor?, hkind, Token.isOperator]
  have hpending : (s.placed ctx item).pendingAnchor = s.pendingAnchor := by
    rw [State.placed, Sight.decision_anchor _ hnone, Option.none_or]
  obtain ⟨a, ha, hkinds⟩ := h.pending (hpending ▸ hanchor)
  have hsame := h.prev b hb hcomment
  rw [ha, Option.some.injEq] at hsame
  exact hsame ▸ hkinds

theorem State.Remembers.paddable {cells : List Piece} (h : s.Remembers cells)
    (hanchor : (s.placed ctx item).pendingAnchor.isSome = true) :
    Paddable (lastToken none cells) item.token where
  bracket hopen b hb := by
    have hkind : item.token.kind = .openParen := by
      simp only [isOpeningBracket, Bool.and_eq_true, beq_iff_eq] at hopen
      exact hopen.1
    cases hcomment : b.kind.isComment with
    | true => exact .inl rfl
    | false =>
      refine .inr ((h.exists_prev (.inl hkind) hanchor hb hcomment).imp_left fun hcomma => ?_)
      simp only [Token.isOperator, Bool.and_eq_true, beq_iff_eq] at hcomma
      exact hcomma.1
  word hkind b hb := by
    cases hcomment : b.kind.isComment with
    | true =>
      have hne : b.kind ≠ .operator := fun habs => by simp [habs, TokenKind.isComment] at hcomment
      simp [Token.isOperator, hne]
    | false =>
      rcases h.exists_prev (.inr hkind) hanchor hb hcomment with hcomma | hopen
      · simp only [Token.isOperator, Bool.and_eq_true, beq_iff_eq] at hcomma
        simp [Token.isOperator, hcomma.2]
      · simp only [isOpeningBracket, Bool.and_eq_true, beq_iff_eq] at hopen
        simp [Token.isOperator, hopen.1]

theorem exists_laid_comment (hplain : ctx.Plain) {rows : List Row} {cells : List Piece}
    (h : Laid ctx.style.indent s.page ps rows cells) (hne : (s.commentPiece ctx item).text ≠ []) :
    ∃ rows' cells', Laid ctx.style.indent (s.commentWritten ctx item)
      (ps ++ [s.commentPiece ctx item]) rows' cells' ∧ lastToken none cells' = some item.token := by
  have hbroken : Laid ctx.style.indent (s.broken item).page ps rows cells := by
    refine h.of_page ?_ ?_ <;> unfold State.broken <;> split <;> rfl
  unfold State.commentWritten
  simp only [hplain.decorate]
  unfold State.commentPiece at hne ⊢
  have htext : State.commentText ctx item.token (s.commentPage item).line.indent ≠ "" := by
    intro habs
    exact hne (by rw [habs]; rfl)
  unfold State.commentPage at htext ⊢
  by_cases ha : s.attaches item = true
  · simp only [ha, if_true] at htext ⊢
    have hline : s.page.line.text ≠ "" := by
      simp only [State.attaches, Bool.and_eq_true, Bool.not_eq_true'] at ha
      simpa using ha.2
    exact h.exists_attach hline htext item.token _
  · simp only [ha, Bool.false_eq_true, if_false] at htext ⊢
    exact hbroken.exists_write htext item.token true none (fun habs => by cases habs) _

theorem exists_laid_significant (hplain : ctx.Plain) {rows : List Row} {cells : List Piece}
    (h : Laid ctx.style.indent s.page ps rows cells) (hs : s.Remembers cells)
    (hne : ((s.placed ctx item).piece ctx item).text ≠ []) :
    ∃ rows' cells', Laid ctx.style.indent (s.significant ctx item).page
      (ps ++ [(s.placed ctx item).piece ctx item]) rows' cells' ∧
      lastToken none cells' = some item.token := by
  have hp := s.placed_placed ctx item
  have hplaced : Laid ctx.style.indent (s.placed ctx item).page ps rows cells :=
    h.of_page hp.line.2 hp.line.1
  have htext : State.displayText ctx item.token ≠ "" := by
    intro habs
    exact hne (by rw [State.piece, habs]; rfl)
  obtain ⟨rows', cells', hwritten, hlast⟩ := hplaced.exists_write htext item.token
    ((s.placed ctx item).spaceBefore ctx item) (s.placed ctx item).pendingAnchor hs.paddable
    (State.lastLineWidth (State.displayText ctx item.token))
  have hemit : ((s.placed ctx item).emit ctx item).page =
      (((s.placed ctx item).page.advance ((s.placed ctx item).spaceBefore ctx item)).note
        (s.placed ctx item).pendingAnchor).write (State.displayText ctx item.token)
          (State.lastLineWidth (State.displayText ctx item.token)) := by
    rw [State.emit_eq, State.written, hplain.decorate]
    rfl
  rw [← hemit] at hwritten
  refine ⟨rows', cells', hwritten.of_page ?_ ?_, hlast⟩ <;>
    rcases (s.settled_significant ctx item).page with hpage | ⟨_, _, hpage⟩ <;> simp only [hpage]

/-- A step adds its piece to the lines. -/
theorem exists_laid_step (hplain : ctx.Plain) {rows : List Row} {cells : List Piece}
    (h : Laid ctx.style.indent s.page ps rows cells) (hs : s.Remembers cells)
    (hadds : Adds ctx s item p) (hne : p.text ≠ []) :
    ∃ rows' cells', Laid ctx.style.indent (s.step ctx item).page (ps ++ [p]) rows' cells' ∧
      (s.step ctx item).Remembers cells' := by
  unfold State.step
  cases hadds with
  | comment hc =>
    rw [if_pos hc]
    obtain ⟨rows', cells', hwritten, hlast⟩ := exists_laid_comment hplain h hne
    rw [State.comment_eq]
    refine ⟨rows', cells', hwritten.of_page ?_ ?_, ?_, hs.pending⟩
    · simp only
      split <;> rfl
    · simp only
      split <;> rfl
    · simp [hlast, hc]
  | significant hc =>
    rw [if_neg (by simp [hc])]
    obtain ⟨rows', cells', hwritten, hlast⟩ := exists_laid_significant hplain h hs hne
    refine ⟨rows', cells', hwritten.of_page rfl rfl, by simp [hlast], fun hpending => ?_⟩
    rw [State.significant_eq] at hpending
    have hvalue : ((s.sight ctx item.token).decision ctx item).value.isSome = true :=
      Option.isSome_map.symm.trans hpending
    exact ⟨item.token, rfl, (s.sight ctx item.token).decision_value hvalue⟩

theorem laid_of_trace (hplain : ctx.Plain) {items : List Item} {qs : List Piece}
    (ht : Trace ctx s items qs) (hne : ∀ p ∈ qs, p.text ≠ []) {rows : List Row}
    {cells : List Piece} (h : Laid ctx.style.indent s.page ps rows cells)
    (hs : s.Remembers cells) :
    ∃ rows' cells', Laid ctx.style.indent (s.run ctx items).page (ps ++ qs) rows' cells' := by
  induction ht generalizing ps rows cells with
  | nil => exact ⟨rows, cells, by simpa [State.run] using h⟩
  | @cons s item items p qs adds _ ih =>
    obtain ⟨rows', cells', hstep, hnext⟩ := exists_laid_step hplain h hs adds (hne p (by simp))
    obtain ⟨rows'', cells'', hrun⟩ := ih (fun q hq => hne q (List.mem_cons_of_mem _ hq)) hstep hnext
    refine ⟨rows'', cells'', ?_⟩
    rwa [List.append_assoc] at hrun

/-! ## Spaces at anchors -/

/-- The second piece is the first with more spaces before it. -/
structure Widens (p q : Piece) : Prop where
  token : q.token = p.token
  text : q.text = p.text
  gap : ∃ n, q.gap = p.gap ++ List.replicate n ' '

theorem Widens.refl (p : Piece) : Widens p p := ⟨rfl, rfl, 0, by simp⟩

/-- The second pieces are the first with more spaces before some of them. Where there were no blanks, they
come only before what they may come before. -/
inductive Widened : Option Token → List Piece → List Piece → Prop
  | nil {before : Option Token} : Widened before [] []
  | cons {before : Option Token} {p q : Piece} {ps qs : List Piece} (widens : Widens p q)
      (apart : p.gap = [] → q.gap ≠ [] → Paddable before p.token)
      (rest : Widened (some p.token) ps qs) : Widened before (p :: ps) (q :: qs)

namespace Widened

variable {before : Option Token} {qs : List Piece}

theorem forall₂ (h : Widened before ps qs) : List.Forall₂ Widens ps qs := by
  induction h with
  | nil => exact .nil
  | cons widens _ _ ih => exact .cons widens ih

theorem append (h : Widened before ps qs) {ps' qs' : List Piece}
    (h' : Widened (lastToken before ps) ps' qs') : Widened before (ps ++ ps') (qs ++ qs') := by
  induction h with
  | nil => exact h'
  | cons widens apart _ ih =>
    rw [lastToken_cons] at h'
    exact .cons widens apart (ih h')

end Widened

/-- Spaces put in before the texts of pieces widen the blanks between them. -/
theorem exists_widened {pads : Nat → Nat} (before : Option Token) (cells : List Piece) (start : Nat)
    (hne : ∀ p ∈ cells, p.text ≠ [])
    (hat : ∀ o, start ≤ o → pads o ≠ 0 → ∃ init p after, cells = init ++ p :: after ∧
      o = start + byteLength (spell init [] ++ p.gap) ∧ Paddable (lastToken before init) p.token) :
    ∃ cells', Widened before cells cells' ∧
      spread pads start (spell cells []) = spell cells' [] := by
  induction cells generalizing before start with
  | nil =>
    have hzero : ∀ o, start ≤ o → pads o = 0 := by
      intro o ho
      by_contra hpad
      obtain ⟨_, _, _, habs, -⟩ := hat o ho hpad
      simp at habs
    exact ⟨[], .nil, spread_eq _ hzero⟩
  | cons p cells ih =>
    obtain ⟨c, cs, htext⟩ := List.exists_cons_of_ne_nil (hne p (by simp))
    have hpos := c.utf8Size_pos
    -- A place is the one before this text, or it is behind this text.
    have hplace : ∀ o, start ≤ o → pads o ≠ 0 →
        (o = start + byteLength p.gap ∧ Paddable before p.token) ∨
        ∃ init q after, cells = init ++ q :: after ∧
          o = start + byteLength p.gap + byteLength p.text + byteLength (spell init [] ++ q.gap) ∧
          Paddable (lastToken (some p.token) init) q.token := by
      intro o ho hpad
      obtain ⟨init, q, after, hcells, hoffset, hpaddable⟩ := hat o ho hpad
      cases init with
      | nil =>
        obtain ⟨rfl, -⟩ := List.cons.inj hcells
        exact .inl ⟨hoffset, hpaddable⟩
      | cons b init =>
        obtain ⟨rfl, hrest⟩ := List.cons.inj hcells
        refine .inr ⟨init, q, after, hrest, ?_, lastToken_cons p init ▸ hpaddable⟩
        rw [hoffset, spell]
        simp only [byteLength_append]
        omega
    have hgap : ∀ o, start ≤ o → o < start + byteLength p.gap → pads o = 0 := by
      intro o ho hlt
      by_contra hpad
      rcases hplace o ho hpad with ⟨heq, -⟩ | ⟨_, _, _, -, heq, -⟩ <;> omega
    have hinside : ∀ o, start + byteLength p.gap + c.utf8Size ≤ o →
        o < start + byteLength p.gap + c.utf8Size + byteLength cs → pads o = 0 := by
      intro o ho hlt
      by_contra hpad
      rcases hplace o (by omega) hpad with ⟨heq, -⟩ | ⟨_, _, _, -, heq, -⟩
      · omega
      · rw [htext, byteLength] at heq
        omega
    obtain ⟨cells', hcells', hspread⟩ := ih (some p.token)
      (start + byteLength p.gap + byteLength p.text)
      (fun q hq => hne q (List.mem_cons_of_mem _ hq)) (by
        intro o ho hpad
        rcases hplace o (by omega) hpad with ⟨heq, -⟩ | hrest
        · rw [htext, byteLength] at ho
          omega
        · exact hrest)
    refine ⟨{ p with gap := p.gap ++ List.replicate (pads (start + byteLength p.gap)) ' ' } :: cells',
      .cons ⟨rfl, rfl, _, rfl⟩ (fun hnil hwide => ?_) hcells', ?_⟩
    · have hpad : pads (start + byteLength p.gap) ≠ 0 := by
        intro habs
        exact hwide (by rw [habs, hnil]; rfl)
      rcases hplace _ (Nat.le_add_right _ _) hpad with ⟨-, hpaddable⟩ | ⟨_, _, _, -, heq, -⟩
      · exact hpaddable
      · rw [htext, byteLength] at heq
        omega
    · rw [htext, byteLength, ← Nat.add_assoc] at hspread
      simp only [spell]
      rw [spread_front _ hgap, htext, List.cons_append, spread, spread_front _ hinside, hspread]
      simp

/-- A line with spaces at its anchors is written from wider cells. -/
theorem Line.Cut.exists_widened {line aligned : Line} {cells : List Piece} (h : line.Cut cells)
    {kinds : List AnchorKind} (hspread : Alignment.Spread kinds line aligned) :
    ∃ cells', Widened none cells cells' ∧ aligned.text.toList = spell cells' [] ∧
      aligned.indent = line.indent := by
  obtain ⟨pads, rfl, hfirst⟩ := hspread
  obtain ⟨cells', hcells', htext⟩ := Layout.exists_widened none cells 0 h.ne_nil (by
    intro o _ hpad
    obtain ⟨a, ha, -, rfl⟩ := hfirst.at o hpad
    obtain ⟨before, p, after, hcells, hoffset, hpaddable⟩ := h.anchors a ha
    exact ⟨before, p, after, hcells, by omega, hpaddable⟩)
  refine ⟨cells', hcells', ?_, rfl⟩
  rw [Line.spread, String.toList_ofList, h.text, htext]

/-- Wider blanks between the same texts leave the end of a text as it is. -/
theorem trimmed_widened {cells cells' : List Piece} (h : List.Forall₂ Widens cells cells')
    (hne : ∀ p ∈ cells, p.text ≠ []) (ht : Trimmed (spell cells [])) : Trimmed (spell cells' []) := by
  induction h with
  | nil => exact ht
  | @cons p p' cells cells' hp hcells ih =>
    have hp_ne := hne p (by simp)
    cases hcells with
    | nil =>
      simp only [spell, List.append_nil] at ht ⊢
      rw [hp.text]
      exact dropWhileEnd_append (ht.of_append hp_ne) hp_ne
    | @cons q q' rest rest' hq _ =>
      have hq_ne := hne q (by simp)
      rw [spell, ← List.append_assoc] at ht
      rw [spell, ← List.append_assoc]
      have htrimmed := ih (fun r hr => hne r (List.mem_cons_of_mem _ hr))
        (ht.of_append (by simp [spell, hq_ne]))
      exact dropWhileEnd_append htrimmed (by simp [spell, hq.text, hq_ne])

/-- A row and what alignment made of it. -/
structure RowWidens (row row' : Row) : Prop where
  cells : Widened none row.2 row'.2
  text : row'.1.text.toList = spell row'.2 []
  indent : row'.1.indent = row.1.indent

theorem exists_rows {rows : List Row} (hcuts : ∀ row ∈ rows, row.1.Cut row.2)
    {kinds : List AnchorKind} {aligned : List Line}
    (h : List.Forall₂ (Alignment.Spread kinds) (rows.map Prod.fst) aligned) :
    ∃ rows', rows'.map Prod.fst = aligned ∧ List.Forall₂ RowWidens rows rows' := by
  induction rows generalizing aligned with
  | nil =>
    cases h
    exact ⟨[], rfl, .nil⟩
  | cons row rows ih =>
    cases h with
    | @cons _ line' _ rest hline hrest =>
      obtain ⟨cells', hcells, htext, hindent⟩ := (hcuts row (by simp)).exists_widened hline
      obtain ⟨rows', hmap, hrows⟩ := ih (fun r hr => hcuts r (List.mem_cons_of_mem _ hr)) hrest
      exact ⟨(line', cells') :: rows', by simp [hmap], .cons ⟨hcells, htext, hindent⟩ hrows⟩

theorem assemble_widened (unit : String) {rows rows' : List Row}
    (h : List.Forall₂ RowWidens rows rows') {before : Option Token} {feeds : Nat}
    (hfirst : feeds = 0 → before = none) :
    Widened before (assemble unit feeds rows) (assemble unit feeds rows') := by
  induction h generalizing before feeds with
  | nil => exact .nil
  | @cons row row' rows rows' hrow _ ih =>
    obtain ⟨line, cells⟩ := row
    obtain ⟨line', cells'⟩ := row'
    obtain ⟨hcells, -, hindent⟩ := hrow
    cases hcells with
    | nil => exact ih fun habs => absurd habs feeds.succ_ne_zero
    | @cons _ p p' ps ps' hp hapart hps =>
      obtain ⟨n, hgap⟩ := hp.gap
      change line'.indent = line.indent at hindent
      refine .cons ⟨hp.token, hp.text, n, ?_⟩ (fun hnil _ => ?_) (hps.append (ih fun habs => ?_))
      · simp only [hindent, hgap, List.append_assoc]
      · -- no line feed comes before the first cell of all only
        have hfeeds : feeds = 0 := by simpa using (List.append_eq_nil_iff.mp
          (List.append_eq_nil_iff.mp hnil).1).1
        rw [hfirst hfeeds]
        exact paddable_none p.token
      · exact absurd habs one_ne_zero

/-- The characters of lines are spelt out from their pieces. -/
theorem chars_assemble (unit : String) {rows : List Row} {last : Row}
    (hrows : ∀ row ∈ rows ++ [last], row.1.text.toList = spell row.2 [] ∧ ∀ p ∈ row.2, p.text ≠ [])
    (hlast : last.2 ≠ []) (feeds : Nat) :
    List.replicate feeds '\n' ++
        ((rows.map Prod.fst).flatMap (fun line => line.chars unit ++ ['\n']) ++ last.1.chars unit) =
      spell (assemble unit feeds (rows ++ [last])) [] := by
  have hchars : ∀ (line : Line) (p : Piece) (ps : List Piece), p.text ≠ [] →
      line.text.toList = spell (p :: ps) [] →
      line.chars unit = margin unit line.indent ++ spell (p :: ps) [] := by
    intro line p ps hne htext
    rw [Line.chars_of_ne, htext]
    intro habs
    rw [habs] at htext
    simp [spell, hne] at htext
  induction rows generalizing feeds with
  | nil =>
    obtain ⟨line, cells⟩ := last
    obtain ⟨p, ps, rfl⟩ := List.exists_cons_of_ne_nil hlast
    obtain ⟨htext, hne⟩ := hrows (line, p :: ps) (by simp)
    rw [List.map_nil, List.flatMap_nil, List.nil_append, hchars line p ps (hne p (by simp)) htext]
    simp [assemble, spell]
  | cons row rows ih =>
    obtain ⟨line, cells⟩ := row
    obtain ⟨htext, hne⟩ := hrows (line, cells) (by simp)
    have hrest := ih fun row hrow => hrows row (List.mem_cons_of_mem _ hrow)
    cases cells with
    | nil =>
      have hempty : line.chars unit = [] := Line.chars_empty (String.toList_inj.mp htext)
      rw [List.cons_append, assemble, ← hrest]
      simp [hempty, List.replicate_succ']
    | cons p ps =>
      rw [List.cons_append, assemble, List.cons_append, spell, spell_append, ← hrest 1, List.map_cons,
        List.flatMap_cons, hchars line p ps (hne p (by simp)) htext, spell]
      rw [spell_tail ps (List.replicate 1 '\n' ++ _)]
      simp

theorem exists_concat {α β : Type} {r : α → β → Prop} {as : List α} {a : α} {bs : List β}
    (h : List.Forall₂ r (as ++ [a]) bs) :
    ∃ init b, bs = init ++ [b] ∧ List.Forall₂ r as init ∧ r a b := by
  rw [← List.forall₂_reverse_iff, List.reverse_append, List.reverse_singleton,
    List.singleton_append, List.forall₂_cons_left_iff] at h
  obtain ⟨b, rest, hab, hrest, hbs⟩ := h
  refine ⟨rest.reverse, b, ?_, ?_, hab⟩
  · rw [← List.reverse_reverse bs, hbs, List.reverse_cons]
  · rw [← List.forall₂_reverse_iff, List.reverse_reverse]
    exact hrest

theorem exists_mem_left {α β : Type} {r : α → β → Prop} {as : List α} {bs : List β}
    (h : List.Forall₂ r as bs) {b : β} (hb : b ∈ bs) : ∃ a ∈ as, r a b := by
  induction h with
  | nil => cases hb
  | @cons a b' as bs hab _ ih =>
    rcases List.mem_cons.mp hb with rfl | hb
    · exact ⟨a, by simp, hab⟩
    · obtain ⟨a', ha', hr⟩ := ih hb
      exact ⟨a', List.mem_cons_of_mem _ ha', hr⟩

/-- The page of some rows. -/
def pageOf (init : List Row) (last : Row) : Page :=
  ⟨(init.map Prod.fst).reverse, last.1, none, 0⟩

theorem lines_pageOf (init : List Row) (last : Row) :
    (pageOf init last).lines = (init ++ [last]).map Prod.fst := by
  simp [pageOf, Page.lines]

theorem chars_pageOf (unit : String) (init : List Row) (last : Row) :
    (pageOf init last).chars unit =
      (init.map Prod.fst).flatMap (fun line => line.chars unit ++ ['\n']) ++ last.1.chars unit := by
  simp [pageOf, Page.chars]

/-- Rows that were trimmed still are. -/
theorem neat_pageOf {rows init : List Row} (last : Row) (hcuts : ∀ row ∈ rows, row.1.Cut row.2)
    (hneat : ∀ row ∈ rows, row.1.text = "" ∨ Trimmed row.1.text.toList)
    (hinit : List.Forall₂ RowWidens rows init) : (pageOf init last).Neat := by
  intro line hline
  obtain ⟨row', hrow', rfl⟩ := List.mem_map.mp (List.mem_reverse.mp hline)
  obtain ⟨row, hrow, hwidens⟩ := exists_mem_left hinit hrow'
  rcases hneat row hrow with hempty | htrimmed
  · left
    have hcells := hwidens.cells.forall₂
    rw [(hcuts row hrow).eq_nil_iff.mpr hempty, List.forall₂_nil_left_iff] at hcells
    have htext := hwidens.text
    rw [hcells] at htext
    exact String.toList_inj.mp htext
  · right
    rw [(hcuts row hrow).text] at htrimmed
    rw [hwidens.text]
    exact trimmed_widened hwidens.cells.forall₂ (hcuts row hrow).ne_nil htrimmed

/-- Lines with spaces at their anchors are spelt out from the same pieces with wider blanks. -/
theorem Laid.widened {unit : String} {page : Page} {rows : List Row} {cells : List Piece}
    (h : Laid unit page ps rows cells) (hneat : page.Neat) {kinds : List AnchorKind}
    {aligned : List Line} (hspread : List.Forall₂ (Alignment.Spread kinds) page.lines aligned) :
    ∃ ps', Widened none ps ps' ∧
      (render unit aligned).toList = dropWhileEnd isWhite (spell ps' []) := by
  have hlines : page.lines = (rows ++ [(page.line, cells)]).map Prod.fst := by
    simp [Page.lines, h.done]
  have hcuts : ∀ row ∈ rows ++ [(page.line, cells)], row.1.Cut row.2 := by
    intro row hrow
    rcases List.mem_append.mp hrow with hrow | hrow
    · exact h.cuts row hrow
    · obtain rfl := List.mem_singleton.mp hrow
      exact h.line
  rw [hlines] at hspread
  obtain ⟨rows', rfl, hrows⟩ := exists_rows hcuts hspread
  refine ⟨assemble unit 0 rows', h.pieces ▸ assemble_widened unit hrows fun _ => rfl, ?_⟩
  obtain ⟨init, last, rfl, hinit, hlast⟩ := exists_concat hrows
  have hneat' : (pageOf init last).Neat := by
    refine neat_pageOf last h.cuts (fun row hrow => hneat row.1 (List.mem_reverse.mp ?_)) hinit
    rw [h.done]
    exact List.mem_map_of_mem hrow
  rw [← lines_pageOf, Page.toList_render hneat', chars_pageOf]
  refine congrArg (dropWhileEnd isWhite) ?_
  by_cases hcells : cells = []
  · -- nothing has been written
    obtain ⟨rfl, -⟩ := h.start hcells
    obtain rfl := List.forall₂_nil_left_iff.mp hinit
    obtain ⟨line, cells'⟩ := last
    obtain rfl : cells' = [] := by
      have hnil := hlast.cells.forall₂
      rwa [hcells, List.forall₂_nil_left_iff] at hnil
    rw [Line.chars_empty (String.toList_inj.mp hlast.text)]
    rfl
  · have hbody : ∀ row ∈ init ++ [last], row.1.text.toList = spell row.2 [] ∧
        ∀ p ∈ row.2, p.text ≠ [] := by
      intro row' hrow'
      obtain ⟨row, hrow, hwidens⟩ := exists_mem_left hrows hrow'
      refine ⟨hwidens.text, fun p' hp' => ?_⟩
      obtain ⟨p, hp, hpw⟩ := exists_mem_left hwidens.cells.forall₂ hp'
      rw [hpw.text]
      exact (hcuts row hrow).ne_nil p hp
    refine chars_assemble unit hbody (fun hnil => hcells ?_) 0
    have hempty := hlast.cells.forall₂
    rwa [hnil, List.forall₂_nil_right_iff] at hempty

end SqlFormat.Layout

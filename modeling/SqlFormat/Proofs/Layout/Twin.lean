import Mathlib
import SqlFormat.Format
import SqlFormat.Proofs.Layout.Decision
import SqlFormat.Proofs.Text.Span
import SqlFormat.Proofs.Token.Lossless

/-!
# Layout in colour

Colour is written with the tokens, but layout never looks at it: it asks whether a line is empty, how
wide it is and which anchors it has, and these are the same in colour and without. So two runs over the
same tokens, one in colour and one without, write the same lines span by span, and their anchors stand
before the same spans.

Results: `twin_linesOf`.
-/

namespace SqlFormat

/-- The style that always wants colour. -/
def Style.coloured (style : Style) : Style := { style with color := .always }

/-- The style that never wants colour. -/
def Style.uncoloured (style : Style) : Style := { style with color := .never }

namespace Layout

open Text SqlFormat.Span

/-- What layout in colour looks at. -/
def Context.coloured (style : Style) (dialect : Dialect) : Context :=
  ⟨style.coloured, dialect, Ansi.decorate⟩

/-- What layout without colour looks at. -/
def Context.uncoloured (style : Style) (dialect : Dialect) : Context :=
  ⟨style.uncoloured, dialect, fun _ text => text⟩

/-! ## Lines -/

/-- A place between two spans, in bytes of the coloured text and of the plain text. -/
def Cut (spans : List Span) (coloured plain : Nat) : Prop :=
  ∃ before after, spans = before ++ after ∧ coloured = byteLength (paintAll before) ∧
    plain = byteLength (plainAll before)

/-- The same anchor on two lines, whose texts may differ in length before it. -/
structure Anchor.Twin (a b : Anchor) : Prop where
  kind : a.kind = b.kind
  slot : a.slot = b.slot
  column : a.column = b.column

/-- A line in colour and the same line without colour, written in these spans. The first anchors of
slots stand before the same spans, but those of some kinds need no longer do so. -/
structure Line.Twin (kinds : List AnchorKind) (spans : List Span) (c p : Line) : Prop where
  indent : c.indent = p.indent
  width : c.width = p.width
  coloured : c.text.toList = paintAll spans
  plain : p.text.toList = plainAll spans
  good : ∀ s ∈ spans, s.Good
  anchors : List.Forall₂ Anchor.Twin c.anchors p.anchors
  cuts : ∀ kind ∉ kinds, ∀ slot a b, c.anchor? kind slot = some a → p.anchor? kind slot = some b →
    Cut spans a.offset b.offset

/-- A line in colour and the same line without colour. -/
def Line.Twins (c p : Line) : Prop :=
  ∃ spans, Line.Twin [] spans c p

variable {kinds : List AnchorKind} {spans : List Span} {c p : Line}

theorem Cut.append (h : Cut spans m n) (more : List Span) : Cut (spans ++ more) m n := by
  obtain ⟨before, after, rfl, hm, hn⟩ := h
  exact ⟨before, after ++ more, List.append_assoc .., hm, hn⟩

/-- Colour makes no line of no line. -/
theorem Line.Twin.isEmpty_eq (h : Line.Twin kinds spans c p) : c.text.isEmpty = p.text.isEmpty := by
  rw [Bool.eq_iff_iff, String.isEmpty_iff, String.isEmpty_iff, ← String.toList_eq_nil_iff,
    ← String.toList_eq_nil_iff, h.coloured, h.plain]
  exact paintAll_eq_nil h.good

theorem Line.Twin.kinds_eq (h : Line.Twin kinds spans c p) :
    c.anchors.map (·.kind) = p.anchors.map (·.kind) := by
  rw [← List.forall₂_eq_eq_eq, List.forall₂_map_left_iff, List.forall₂_map_right_iff]
  exact h.anchors.imp fun a b hab => hab.kind

theorem Line.twins_empty (indent : Nat) : Line.Twins (.empty indent) (.empty indent) :=
  ⟨[], rfl, rfl, rfl, rfl, by simp, .nil, fun _ _ _ _ _ ha => nomatch ha⟩

theorem find?_rel {α β : Type} {r : α → β → Prop} {as : List α} {bs : List β} {f : α → Bool}
    {g : β → Bool} (h : List.Forall₂ r as bs)
    (hfg : ∀ a b, r a b → f a = g b) : Option.Rel r (as.find? f) (bs.find? g) := by
  induction h with
  | nil => exact .none
  | @cons a b as bs hab _ ih =>
    rw [List.find?_cons, List.find?_cons, hfg a b hab]
    cases g b with
    | true => exact .some hab
    | false => exact ih

theorem Line.Twin.anchor? (h : Line.Twin kinds spans c p) (kind : AnchorKind) (slot : Nat) :
    Option.Rel Anchor.Twin (c.anchor? kind slot) (p.anchor? kind slot) :=
  find?_rel h.anchors fun a b hab => by rw [hab.kind, hab.slot]

/-! ## Pages -/

/-- A page in colour and the same page without colour. -/
structure Page.Twin (c p : Page) : Prop where
  done : List.Forall₂ Line.Twins c.done p.done
  line : c.line.Twins p.line
  breakAt : c.breakAt = p.breakAt
  blankLines : c.blankLines = p.blankLines

namespace Page.Twin

variable {c p : Page}

theorem start : Page.start.Twin Page.start := ⟨.nil, Line.twins_empty 0, rfl, rfl⟩

theorem newline (h : c.Twin p) (indent : Nat) : (c.newline indent).Twin (p.newline indent) :=
  ⟨h.done, h.line, rfl, h.blankLines⟩

theorem place (h : c.Twin p) (placed : Option Nat) : (c.place placed).Twin (p.place placed) := by
  cases placed with
  | none => exact h
  | some indent => exact h.newline indent

theorem settle (h : c.Twin p) (settled : Option Nat) (lines : Nat) :
    (c.settle settled lines).Twin (p.settle settled lines) := by
  cases settled with
  | none => exact h
  | some indent => exact ⟨h.done, h.line, rfl, congrArg (max · lines) h.blankLines⟩

/-- The same span is written on both pages. -/
theorem write (h : c.Twin p) {s : Span} (hs : s.Good) (width : Nat) :
    (c.write (Ansi.decorate s.kind s.text) width).Twin (p.write s.text width) := by
  obtain ⟨spans, hline⟩ := h.line
  refine ⟨h.done, ⟨spans ++ [s], hline.indent, ?_, ?_, ?_, ?_, hline.anchors, ?_⟩, h.breakAt,
    h.blankLines⟩
  · have hfeed : (Ansi.decorate s.kind s.text).toList.contains '\n' = s.text.toList.contains '\n' := by
      rw [Bool.eq_iff_iff, List.contains_iff_mem, List.contains_iff_mem]
      exact newline_mem_painted
    simp only [Page.write, hfeed, hline.width]
  · simp only [Page.write]
    rw [String.toList_append, hline.coloured, paintAll_append, paintAll_singleton]
    rfl
  · simp only [Page.write]
    rw [String.toList_append, hline.plain, plainAll_append, plainAll_singleton]
  · intro t ht
    rcases List.mem_append.mp ht with ht | ht
    · exact hline.good t ht
    · exact List.mem_singleton.mp ht ▸ hs
  · exact fun kind hkind slot a b ha hb => (hline.cuts kind hkind slot a b ha hb).append [s]

theorem write_space (h : c.Twin p) : (c.write " " 1).Twin (p.write " " 1) :=
  have hspace : (Span.blank " ").Good := good_blank (by simp)
  h.write hspace 1

theorem lineEmpty (h : c.Twin p) : c.line.text.isEmpty = p.line.text.isEmpty := by
  obtain ⟨spans, hline⟩ := h.line
  exact hline.isEmpty_eq

theorem advance (h : c.Twin p) (space : Bool) : (c.advance space).Twin (p.advance space) := by
  unfold Page.advance
  rw [h.breakAt, h.lineEmpty, h.blankLines]
  cases p.breakAt with
  | none =>
    simp only
    split
    · exact h.write_space
    · exact h
  | some indent =>
    simp only
    split
    · obtain ⟨spans, hline⟩ := h.line
      exact ⟨h.done, ⟨spans, rfl, hline.width, hline.coloured, hline.plain, hline.good,
        hline.anchors, hline.cuts⟩, rfl, rfl⟩
    · refine ⟨?_, Line.twins_empty indent, rfl, rfl⟩
      exact List.rel_append (List.forall₂_same.mpr fun line hline =>
        List.eq_of_mem_replicate hline ▸ Line.twins_empty 0) (.cons h.line h.done)

theorem anchor?_note (line : Line) (place : Anchor) (kind : AnchorKind) (slot : Nat) :
    { line with anchors := line.anchors ++ [place] }.anchor? kind slot =
      (line.anchor? kind slot).or
        (if place.kind == kind && place.slot == slot then some place else none) := by
  rw [Line.anchor?, List.find?_append, List.find?_singleton]
  rfl

/-- An anchor stands behind all spans that have been written. -/
theorem note (h : c.Twin p) (anchor : Option (AnchorKind × Nat)) :
    (c.note anchor).Twin (p.note anchor) := by
  cases anchor with
  | none => exact h
  | some place =>
    obtain ⟨spans, hline⟩ := h.line
    refine ⟨h.done, ⟨spans, hline.indent, hline.width, hline.coloured, hline.plain, hline.good,
      List.rel_append hline.anchors (.cons ⟨rfl, rfl, hline.width⟩ .nil), ?_⟩, h.breakAt,
      h.blankLines⟩
    intro kind hkind slot a b ha hb
    have hcut : Cut spans c.line.text.utf8ByteSize p.line.text.utf8ByteSize := by
      refine ⟨spans, [], (List.append_nil spans).symm, ?_, ?_⟩
      · rw [← hline.coloured, Lexer.byteLength_eq, String.ofList_toList]
      · rw [← hline.plain, Lexer.byteLength_eq, String.ofList_toList]
    have hold := hline.anchor? kind slot
    have hcuts := hline.cuts kind hkind slot
    rw [Page.note, Page.anchor, anchor?_note] at ha hb
    generalize c.line.anchor? kind slot = x at hold hcuts ha
    generalize p.line.anchor? kind slot = y at hold hcuts hb
    cases hold with
    | some _ => exact hcuts a b ha hb
    | none =>
      -- the first anchor of the slot is the new one
      rw [Option.none_or] at ha hb
      split at ha
      · next hplace =>
        rw [if_pos hplace] at hb
        rw [← Option.some.inj ha, ← Option.some.inj hb]
        exact hcut
      · cases ha

/-! ## What layout sees of a page -/

theorem lineIndent (h : c.Twin p) : c.line.indent = p.line.indent := by
  obtain ⟨spans, hline⟩ := h.line
  exact hline.indent

theorem indent (h : c.Twin p) : c.indent = p.indent := by
  rw [Page.indent, Page.indent, h.breakAt, h.lineIndent]

theorem atLineStart (h : c.Twin p) : c.atLineStart = p.atLineStart := by
  rw [Page.atLineStart, Page.atLineStart, h.breakAt, h.lineEmpty]

theorem column (h : c.Twin p) (unit : Nat) : c.column unit = p.column unit := by
  obtain ⟨spans, hline⟩ := h.line
  rw [Page.column, Page.column, h.breakAt, hline.indent, hline.width]

theorem lineHas (h : c.Twin p) (kind : AnchorKind) : c.lineHas kind = p.lineHas kind := by
  obtain ⟨spans, hline⟩ := h.line
  have hany : ∀ anchors : List Anchor,
      anchors.any (·.kind == kind) = (anchors.map (·.kind)).any (· == kind) := by
    intro anchors
    rw [List.any_map]
    rfl
  rw [Page.lineHas, Page.lineHas, h.breakAt, hany, hany, hline.kinds_eq]

theorem lines (h : c.Twin p) : List.Forall₂ Line.Twins c.lines p.lines :=
  List.rel_reverse (.cons h.line h.done)

end Page.Twin

/-! ## States -/

/-- The state with another page. -/
def State.onPage (s : State) (page : Page) : State := { s with page := page }

/-- The texts that are written for the item can be told from their colour. -/
structure Item.Inked (ctx : Context) (item : Item) : Prop where
  token : item.token.kind.isComment = false →
    Good ⟨item.token.kind, State.displayText ctx item.token⟩
  comment : item.token.kind.isComment = true →
    ∀ indent, Good ⟨item.token.kind, State.commentText ctx item.token indent⟩

namespace State

variable {style : Style} {dialect : Dialect} {s : State} {page : Page} {item : Item}

/-- **Colour cannot be seen** by what decides about a token. -/
theorem sight_onPage (h : page.Twin s.page) (token : Token) :
    (s.onPage page).sight (.coloured style dialect) token =
      s.sight (.uncoloured style dialect) token := by
  have hroom : (s.onPage page).available (.coloured style dialect) =
      s.available (.uncoloured style dialect) := by
    unfold available
    simp only [onPage, h.atLineStart, h.column]
    rfl
  have hanchor : (s.onPage page).anchorFor? (.coloured style dialect) token =
      s.anchorFor? (.uncoloured style dialect) token := by
    unfold anchorFor?
    simp only [onPage, h.lineHas]
    rfl
  rw [sight, sight, hroom, hanchor]
  simp only [onPage, h.indent]

theorem decision_coloured (v : Sight) (item : Item) :
    v.decision (.coloured style dialect) item = v.decision (.uncoloured style dialect) item :=
  v.decision_congr rfl rfl rfl rfl rfl

/-- What is written for a token, in colour and without. -/
theorem written_onPage (h : page.Twin s.page)
    (hitem : item.Inked (.uncoloured style dialect)) (hkind : item.token.kind.isComment = false)
    (placed : Option Nat) (anchor : Option (AnchorKind × Nat)) :
    ((s.onPage page).written (.coloured style dialect) item placed anchor).Twin
      (s.written (.uncoloured style dialect) item placed anchor) :=
  (((h.place placed).advance _).note anchor).write (hitem.token hkind) _

theorem significant_onPage (h : page.Twin s.page)
    (hitem : item.Inked (.uncoloured style dialect)) (hkind : item.token.kind.isComment = false) :
    ∃ page', (s.onPage page).significant (.coloured style dialect) item =
        (s.significant (.uncoloured style dialect) item).onPage page' ∧
      page'.Twin (s.significant (.uncoloured style dialect) item).page := by
  rw [significant_eq, significant_eq, sight_onPage h, decision_coloured]
  generalize (s.sight (.uncoloured style dialect) item.token).decision _ item = d
  exact ⟨_, rfl, (written_onPage h hitem hkind d.placed _).settle d.settled d.blank⟩

theorem comment_onPage (h : page.Twin s.page)
    (hitem : item.Inked (.uncoloured style dialect)) (hkind : item.token.kind.isComment = true) :
    ∃ page', (s.onPage page).comment (.coloured style dialect) item =
        (s.comment (.uncoloured style dialect) item).onPage page' ∧
      page'.Twin (s.comment (.uncoloured style dialect) item).page := by
  have hattaches : (s.onPage page).attaches item = s.attaches item := by
    unfold attaches
    simp only [onPage, h.atLineStart, h.lineEmpty]
  have hbroken : ((s.onPage page).broken item).page.Twin (s.broken item).page := by
    unfold broken
    simp only [onPage, h.atLineStart]
    split
    · exact h.newline _
    · exact h
  have hpage : ((s.onPage page).commentPage item).Twin (s.commentPage item) := by
    unfold commentPage
    rw [hattaches]
    split
    · exact h.write_space
    · exact hbroken.advance true
  have hwritten : ((s.onPage page).commentWritten (.coloured style dialect) item).Twin
      (s.commentWritten (.uncoloured style dialect) item) := by
    have hwrite := hpage.write (hitem.comment hkind (s.commentPage item).line.indent)
      (lastLineWidth (commentText (.uncoloured style dialect) item.token
        (s.commentPage item).line.indent))
    unfold commentWritten
    rw [hpage.lineIndent]
    exact hwrite
  rw [comment_eq, comment_eq]
  refine ⟨_, rfl, ?_⟩
  simp only
  rw [hwritten.breakAt]
  split
  · exact hwritten.newline _
  · exact hwritten

theorem step_onPage (h : page.Twin s.page) (hitem : item.Inked (.uncoloured style dialect)) :
    ∃ page', (s.onPage page).step (.coloured style dialect) item =
        (s.step (.uncoloured style dialect) item).onPage page' ∧
      page'.Twin (s.step (.uncoloured style dialect) item).page := by
  unfold step
  cases hkind : item.token.kind.isComment with
  | true => exact comment_onPage h hitem hkind
  | false =>
    obtain ⟨page', hstep, hpage⟩ := significant_onPage h hitem hkind
    simp only [Bool.false_eq_true, if_false]
    rw [hstep]
    exact ⟨page', rfl, hpage⟩

theorem run_onPage {items : List Item} (h : page.Twin s.page)
    (hitems : ∀ item ∈ items, item.Inked (.uncoloured style dialect)) :
    ∃ page', (s.onPage page).run (.coloured style dialect) items =
        (s.run (.uncoloured style dialect) items).onPage page' ∧
      page'.Twin (s.run (.uncoloured style dialect) items).page := by
  induction items generalizing s page with
  | nil => exact ⟨page, rfl, h⟩
  | cons item items ih =>
    obtain ⟨page', hstep, hpage⟩ := step_onPage h (hitems item List.mem_cons_self)
    unfold run
    rw [List.foldl_cons, List.foldl_cons, hstep]
    exact ih hpage fun other hother => hitems other (List.mem_cons_of_mem item hother)

end State

/-- **Colour changes no line**: tokens are laid out in the same lines with colour and without. -/
theorem twin_linesOf {style : Style} {dialect : Dialect} {tokens : List Token}
    (h : ∀ item ∈ Item.ofTokens tokens, item.Inked (.uncoloured style dialect)) :
    List.Forall₂ Line.Twins (linesOf (.coloured style dialect) tokens)
      (linesOf (.uncoloured style dialect) tokens) := by
  obtain ⟨page, hrun, hpage⟩ := State.run_onPage (s := .start) Page.Twin.start h
  have hlines : linesOf (.coloured style dialect) tokens = page.lines :=
    congrArg (·.page.lines) hrun
  rw [hlines]
  exact hpage.lines

end Layout

end SqlFormat

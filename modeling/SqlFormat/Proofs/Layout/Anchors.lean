import Mathlib
import SqlFormat.Proofs.Checked.Format
import SqlFormat.Proofs.Layout.Alignment
import SqlFormat.Proofs.Layout.Turn
import SqlFormat.Proofs.Text.Utf8

/-!
# Where anchors stand

An anchor is noted at the end of the line that is being written, so it stands between two characters
of the line, whatever is written later. A style that lines up one of columns and assignments only,
and no values, has anchors of one kind with one slot; so alignment always finds them in order.

Results: `anchored_linesOf`, `orderly_linesOf`, `formatBytes_faultless`.
-/

namespace SqlFormat

/-- The anchors that a style asks for are of one kind and have one slot. -/
structure Style.AlignsOnly (style : Style) (kind : Layout.AnchorKind) : Prop where
  columns : style.alignColumns = true → kind = .alias
  assignments : style.alignAssignments = true → kind = .assign
  values : style.alignValues = false

end SqlFormat

namespace SqlFormat.Layout

open Text

/-! ## What holds of all lines of a page -/

/-- A property of lines that holds of empty ones and stays true while a line is written, as long as
no anchor is noted. -/
structure Line.Kept (P : Line → Prop) : Prop where
  empty : ∀ indent, P (.empty indent)
  indent : ∀ line indent, P line → P { line with indent := indent }
  write : ∀ line text width, P line → P { line with text := line.text ++ text, width := width }

/-- The line with an anchor noted at its end. -/
def Line.noted (line : Line) (place : AnchorKind × Nat) : Line :=
  { line with
    anchors := line.anchors ++ [⟨place.1, place.2, line.text.utf8ByteSize, line.width⟩] }

/-- The property holds of all lines of the page. -/
def Page.All (P : Line → Prop) (page : Page) : Prop :=
  ∀ line ∈ page.line :: page.done, P line

namespace Page.All

variable {P : Line → Prop} {page : Page}

theorem mk_line (h : page.All P) {line : Line} (hline : P line) :
    { page with line := line }.All P := by
  rintro other (_ | ⟨_, hdone⟩)
  · exact hline
  · exact h other (List.mem_cons_of_mem _ hdone)

theorem write (hP : Line.Kept P) (h : page.All P) (text : String) (width : Nat) :
    (page.write text width).All P :=
  h.mk_line (hP.write _ _ _ (h page.line (by simp)))

theorem advance (hP : Line.Kept P) (h : page.All P) (space : Bool) : (page.advance space).All P := by
  unfold Page.advance
  cases page.breakAt with
  | none =>
    simp only
    split
    · exact h.write hP _ _
    · exact h
  | some indent =>
    simp only
    split
    · exact h.mk_line (hP.indent _ _ (h page.line (by simp)))
    · rintro line (_ | ⟨_, hmem⟩)
      · exact hP.empty indent
      · rcases List.mem_append.mp hmem with hblank | hold
        · rw [List.eq_of_mem_replicate hblank]
          exact hP.empty 0
        · exact h line hold

theorem note (h : page.All P) {anchor : Option (AnchorKind × Nat)}
    (hanchor : ∀ place ∈ anchor, ∀ line, P line → P (line.noted place)) :
    (page.note anchor).All P := by
  cases anchor with
  | none => exact h
  | some place => exact h.mk_line (hanchor place rfl _ (h page.line (by simp)))

end Page.All

namespace State

variable {ctx : Context} {s : State} {P : Line → Prop}

theorem all_comment (hP : Line.Kept P) (h : s.page.All P) (item : Item) :
    (s.comment ctx item).page.All P := by
  have hbroken : (s.broken item).page.All P := by
    unfold broken
    split <;> exact h
  have hpage : (s.commentPage item).All P := by
    unfold commentPage
    split
    · exact h.write hP _ _
    · exact hbroken.advance hP _
  have hwritten : (s.commentWritten ctx item).All P := hpage.write hP _ _
  rw [comment_eq]
  simp only
  split <;> exact hwritten

theorem all_decided (hP : Line.Kept P) (h : s.page.All P) {d : Decision}
    (hanchor : ∀ place ∈ d.anchor.or s.pendingAnchor, ∀ line, P line → P (line.noted place))
    (item : Item) (between : Bool) : (s.decided ctx item d between).page.All P := by
  have hplaced : (s.page.place d.placed).All P := by
    cases d.placed <;> exact h
  have hwritten : (s.written ctx item d.placed (d.anchor.or s.pendingAnchor)).All P :=
    ((hplaced.advance hP _).note hanchor).write hP _ _
  unfold decided Page.settle
  cases d.settled <;> exact hwritten

end State

/-! ## Between characters -/

/-- All anchors stand between characters of the line. -/
def Line.AllAnchored (line : Line) : Prop :=
  ∀ kind, line.Anchored kind

theorem Line.kept_allAnchored : Line.Kept Line.AllAnchored where
  empty indent kind a ha := by cases ha
  indent line indent h := h
  write line text width h kind a ha hkind := by
    obtain ⟨before, after, htext, hoffset⟩ := h kind a ha hkind
    refine ⟨before, after ++ text.toList, ?_, hoffset⟩
    rw [String.toList_append, htext, List.append_assoc]

/-- An anchor stands behind all that has been written. -/
theorem Line.AllAnchored.noted {line : Line} (h : line.AllAnchored) (place : AnchorKind × Nat) :
    (line.noted place).AllAnchored := by
  intro kind a ha hkind
  rcases List.mem_append.mp ha with hold | hnew
  · exact h kind a hold hkind
  · obtain rfl := List.mem_singleton.mp hnew
    refine ⟨line.text.toList, [], (List.append_nil _).symm, ?_⟩
    rw [Lexer.byteLength_eq, String.ofList_toList]

theorem State.anchored_run {ctx : Context} {s : State} (h : s.page.All Line.AllAnchored)
    (items : List Item) : (s.run ctx items).page.All Line.AllAnchored := by
  induction items generalizing s with
  | nil => exact h
  | cons item items ih =>
    refine ih ?_
    unfold State.step
    split
    · exact all_comment Line.kept_allAnchored h item
    · obtain ⟨d, -, heq⟩ := turns_significant ctx s item
      have hpage : (s.decided ctx item d (s.significant ctx item).between).page.All
          Line.AllAnchored :=
        all_decided Line.kept_allAnchored h (fun place _ line hline => hline.noted place) item _
      rw [heq]
      exact hpage

theorem anchored_linesOf (ctx : Context) (tokens : List Token) :
    ∀ line ∈ linesOf ctx tokens, line.AllAnchored := by
  have hstart : State.start.page.All Line.AllAnchored := by
    intro line hline
    obtain rfl := List.mem_singleton.mp hline
    exact Line.kept_allAnchored.empty 0
  intro line hline
  exact State.anchored_run hstart _ line (List.mem_reverse.mp hline)

/-! ## In order -/

/-- All anchors of the line are of one kind and have the first slot. -/
def Line.Uniform (kind : AnchorKind) (line : Line) : Prop :=
  ∀ a ∈ line.anchors, a.kind = kind ∧ a.slot = 0

theorem Line.Uniform.orderly {kind : AnchorKind} {line : Line} (h : line.Uniform kind) :
    line.Orderly where
  kinds a ha b hb _ _ hlt := by
    rw [(h a ha).1, (h b hb).1] at hlt
    exact absurd hlt (lt_irrefl _)
  slots a ha b hb hfirst hfirst' _ _ := by
    -- there is one first anchor only
    rw [(h a ha).1, (h a ha).2] at hfirst
    rw [(h b hb).1, (h b hb).2, hfirst] at hfirst'
    rw [Option.some.inj hfirst']

theorem Line.kept_uniform (kind : AnchorKind) : Line.Kept (Line.Uniform kind) where
  empty indent a ha := by cases ha
  indent line indent h := h
  write line text width h := h

theorem Line.Uniform.noted {kind : AnchorKind} {line : Line} (h : line.Uniform kind) :
    (line.noted (kind, 0)).Uniform kind := by
  intro a ha
  rcases List.mem_append.mp ha with hold | hnew
  · exact h a hold
  · obtain rfl := List.mem_singleton.mp hnew
    exact ⟨rfl, rfl⟩

namespace State

variable {ctx : Context} {s : State} {kind : AnchorKind} {item : Item}

/-- All anchors so far are of one kind and have the first slot, and so will the next one. -/
structure Uniform (kind : AnchorKind) (s : State) : Prop where
  page : s.page.All (Line.Uniform kind)
  pending : ∀ place ∈ s.pendingAnchor, place = (kind, 0)
  frames : ∀ f ∈ s.nesting.stack, f.valueSlot = none

theorem anchorFor?_eq (hstyle : ctx.style.AlignsOnly kind) (token : Token) :
    ∀ place ∈ s.anchorFor? ctx token, place = (kind, 0) := by
  intro place hplace
  unfold anchorFor? at hplace
  simp only at hplace
  split_ifs at hplace with _ halias hassign
  · simp only [Bool.and_eq_true] at halias
    obtain rfl := hstyle.columns halias.1.1.1.2
    exact (Option.some.inj hplace).symm
  · cases hplace
  · simp only [Bool.and_eq_true] at hassign
    obtain rfl := hstyle.assignments hassign.1.1.1
    exact (Option.some.inj hplace).symm
  · cases hplace

/-- Where no values are lined up, no frame counts them and none is waited for. -/
theorem Turn.unnumbered {d : Decision} (h : Turn ctx s item d)
    (hvalues : ctx.style.alignValues = false) (hs : ∀ f ∈ s.nesting.stack, f.valueSlot = none) :
    d.value = none ∧ ∀ f ∈ d.nesting.stack, f.valueSlot = none := by
  have hpush : ∀ f : Frame, f.valueSlot = none →
      ∀ g ∈ (s.nesting.push f).stack, g.valueSlot = none := by
    rintro f hf g (_ | ⟨_, hg⟩)
    · exact hf
    · exact hs g hg
  cases h with
  | content | skipOpener | skipCloser | line | last | comma | commaLine => exact ⟨rfl, hs⟩
  | clause => exact ⟨rfl, Nesting.forall_setClause hs fun _ hf => hf⟩
  | header | division | headerEnd | declared =>
    exact ⟨rfl, Nesting.forall_modifyTop hs fun _ hf => hf⟩
  | value _ hframe hslot =>
    obtain ⟨rest, hstack⟩ := Nesting.top?_eq_some.mp hframe
    rw [hs _ (by rw [hstack]; simp)] at hslot
    cases hslot
  | statement _ hblock =>
    obtain ⟨-, f, rest, -, -, -, rfl, -⟩ := Nesting.toProcedural?_eq_some hblock
    exact ⟨rfl, Nesting.forall_modifyTop (Nesting.forall_truncate hs _) fun _ hf => hf⟩
  | query =>
    refine ⟨rfl, ?_⟩
    exact Nesting.forall_truncate hs 0
  | @bracket _ _ inline tuple _ htuple =>
    have htuple : tuple = false := by simp [htuple, hvalues]
    rw [htuple]
    exact ⟨rfl, hpush _ rfl⟩
  | expression | block => exact ⟨rfl, hpush _ rfl⟩
  | close _ _ hclose => exact ⟨rfl, Nesting.forall_close? hs hclose⟩

theorem Turn.anchor_eq {d : Decision} (h : Turn ctx s item d)
    (hstyle : ctx.style.AlignsOnly kind) : ∀ place ∈ d.anchor, place = (kind, 0) := by
  cases h with
  | content | skipOpener | skipCloser => exact anchorFor?_eq hstyle _
  | _ => exact fun place h => by cases h

theorem uniform_step (hstyle : ctx.style.AlignsOnly kind) (h : s.Uniform kind) (item : Item) :
    (s.step ctx item).Uniform kind := by
  unfold step
  split
  · have hpage : (s.comment ctx item).page.All (Line.Uniform kind) :=
      all_comment (Line.kept_uniform kind) h.page item
    rw [comment_eq] at hpage ⊢
    exact ⟨hpage, h.pending, h.frames⟩
  · obtain ⟨d, hturn, heq⟩ := turns_significant ctx s item
    obtain ⟨hvalue, hframes⟩ := hturn.unnumbered hstyle.values h.frames
    have hanchor : ∀ place ∈ d.anchor.or s.pendingAnchor, place = (kind, 0) := by
      intro place hplace
      rcases Option.or_eq_some_iff.mp hplace with hnew | ⟨-, hpending⟩
      · exact hturn.anchor_eq hstyle place hnew
      · exact h.pending place hpending
    have hpage : (s.decided ctx item d (s.significant ctx item).between).page.All
        (Line.Uniform kind) := by
      refine all_decided (Line.kept_uniform kind) h.page (fun place hplace line hline => ?_) item _
      rw [hanchor place hplace]
      exact hline.noted
    rw [heq]
    refine ⟨hpage, ?_, hframes⟩
    intro place hplace
    simp [decided, hvalue] at hplace

theorem uniform_run (hstyle : ctx.style.AlignsOnly kind) (h : s.Uniform kind)
    (items : List Item) : (s.run ctx items).Uniform kind := by
  induction items generalizing s with
  | nil => exact h
  | cons item items ih => exact ih (uniform_step hstyle h item)

end State

/-- Where one kind of anchor is asked for, and that not for values, all lines are in order. -/
theorem orderly_linesOf {ctx : Context} {kind : AnchorKind}
    (hstyle : ctx.style.AlignsOnly kind) (tokens : List Token) :
    ∀ line ∈ linesOf ctx tokens, line.Orderly := by
  have hstart : State.start.Uniform kind := by
    refine ⟨fun line hline a ha => ?_, by simp [State.start], by simp [State.start, Nesting.start]⟩
    obtain rfl := List.mem_singleton.mp hline
    cases ha
  intro line hline
  exact ((State.uniform_run hstyle hstart _).page line (List.mem_reverse.mp hline)).orderly

end SqlFormat.Layout

namespace SqlFormat

open Layout

/-- The lines of a text as they are before alignment. -/
def linesOfText (dialect : Dialect) (style : Style) (text : String) : List Line :=
  linesOf ⟨style, dialect, style.decoration⟩
    ((tokenize dialect.lexicon text).map style.params.substitute)

theorem exists_format (dialect : Dialect) (style : Style) (text : String)
    (h : ∀ line ∈ linesOfText dialect style text, line.Orderly) :
    ∃ aligned, Alignment.alignAll? style (linesOfText dialect style text) = some aligned ∧
      List.Forall₂ (Alignment.Spread [.value, .assign, .alias]) (linesOfText dialect style text)
        aligned ∧
      format? dialect style text = some (render style.indent aligned) := by
  obtain ⟨aligned, haligned, hspread⟩ := Alignment.exists_alignAll style fun line hline =>
    ⟨anchored_linesOf _ _ line hline, h line hline⟩
  refine ⟨aligned, haligned, hspread, ?_⟩
  rw [format?_eq_layout?]
  exact congrArg (Option.map (render style.indent)) haligned

/-- Alignment finds its anchors in order: aliases or assignments are lined up, but not both and no
values, or else the anchors of every line of the text stand in order. -/
def InOrder (dialect : Dialect) (style : Style) (text : String) : Prop :=
  style.alignValues = false ∧ (style.alignColumns && style.alignAssignments) = false ∨
    ∀ line ∈ linesOfText dialect style text, line.Orderly

theorem InOrder.orderly {dialect : Dialect} {style : Style} {text : String}
    (h : InOrder dialect style text) : ∀ line ∈ linesOfText dialect style text, line.Orderly := by
  rcases h with ⟨hvalues, hone⟩ | h
  · cases hcolumns : style.alignColumns with
    | false =>
      have hstyle : style.AlignsOnly .assign := ⟨by simp [hcolumns], fun _ => rfl, hvalues⟩
      exact orderly_linesOf hstyle _
    | true =>
      have hassign : style.alignAssignments = false := by simpa [hcolumns] using hone
      have hstyle : style.AlignsOnly .alias := ⟨fun _ => rfl, by simp [hassign], hvalues⟩
      exact orderly_linesOf hstyle _
  · exact h

/-- **No index is out of range, no text is cut inside a character and nothing is subtracted below
zero**, whatever bytes are formatted in whatever style: all that can go wrong is that alignment puts
spaces inside a character. Where it finds its anchors in order, nothing does. -/
theorem formatBytes_faultless (dialect : Dialect) (style : Style) (bytes : List UInt8) :
    (∀ fault, Checked.formatBytes dialect style bytes = .error fault → fault = .insertion) ∧
    (InOrder dialect style (Text.decodeLossy bytes) →
      ∃ out, Checked.formatBytes dialect style bytes = .ok out) := by
  rw [Checked.formatBytes, Checked.format_eq]
  refine ⟨fun fault h => ?_, fun horder => ?_⟩
  · revert h
    cases layout? ⟨style, dialect, style.decoration⟩ _ with
    | none => exact fun h => (Except.error.inj h).symm
    | some out => exact fun h => nomatch h
  · obtain ⟨aligned, -, -, hformat⟩ := exists_format dialect style _ horder.orderly
    rw [format?_eq_layout?] at hformat
    exact ⟨_, congrArg (Checked.expect .insertion) hformat⟩

/-- `a as b` with aliases lined up, and a byte that is no UTF-8. -/
theorem formatBytes_faultless_replaced :
    ∃ out, Checked.formatBytes .mysql { Style.standard with alignColumns := true }
      [0x61, 0x20, 0x61, 0x73, 0x20, 0x62, 0xff] = .ok out :=
  (formatBytes_faultless _ _ _).2 (.inl ⟨rfl, rfl⟩)

/-- Where aliases and assignments are lined up on one line, a space may have to go inside a
character. -/
theorem formatBytes_crossing :
    Checked.formatBytes .postgresql
      { Style.standard with alignColumns := true, alignAssignments := true }
      "BEGIN SELECT a AS éé := 1, ccc AS wwwwwwww := 2; END".toUTF8.data.toList =
        .error .insertion := by
  rw [Checked.formatBytes, Text.decodeLossy_toUTF8, Checked.format_eq]
  decide +kernel

end SqlFormat

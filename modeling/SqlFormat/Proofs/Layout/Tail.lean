import Mathlib
import SqlFormat.Proofs.Layout.Anchors
import SqlFormat.Proofs.Layout.Rerun
import SqlFormat.Proofs.Layout.TwinAlignment

/-!
# White space at the end of a text

The last token of a text may be a literal or a comment that is not closed and ends with white space. With
that or without, layout writes the same lines up to white space at the end of the last one. Alignment does
not see it, as the anchors stand before it, and rendering trims it.

Results: `tailed_run`, `alignAll?_tailed`, `render_tailed`.
-/

namespace SqlFormat.Layout

open Text Lexer

/-! ## The last token -/

/-- A sign is an operator. -/
def State.Signed (s : State) : Prop :=
  s.unary = true → ∃ a, s.prev = some a ∧ (a.isOperator "+" = true ∨ a.isOperator "-" = true)

variable {ctx : Context} {s : State} {x : Item} {text : String} {w : List Char}

theorem State.Signed.step (h : s.Signed) (item : Item) : (s.step ctx item).Signed := by
  unfold State.step
  split
  · rw [State.comment_eq]
    exact h
  · intro hunary
    rw [State.significant_eq] at hunary
    have hsign : s.isUnarySign item.token = true := hunary
    simp only [State.isUnarySign, Bool.and_eq_true, Bool.or_eq_true] at hsign
    exact ⟨item.token, rfl, hsign.1⟩

theorem State.signed_run (items : List Item) (h : s.Signed) : (s.run ctx items).Signed := by
  induction items generalizing s with
  | nil => exact h
  | cons item items ih => exact ih (h.step item)

/-- The second page is the first with white space behind it. -/
structure Page.Tailed (page long : Page) : Prop where
  done : long.done = page.done
  indent : long.line.indent = page.line.indent
  anchors : long.line.anchors = page.line.anchors
  text : ∃ w, AllWhite w ∧ long.line.text.toList = page.line.text.toList ++ w
  ne : page.line.text ≠ ""

theorem Page.Tailed.congr {page page' long long' : Page} (h : page.Tailed long)
    (hdone : page'.done = page.done) (hline : page'.line = page.line)
    (hdone' : long'.done = long.done) (hline' : long'.line = long.line) : page'.Tailed long' := by
  obtain ⟨done, indent, anchors, text, ne⟩ := h
  exact ⟨by rw [hdone', done, hdone], by rw [hline', indent, hline], by rw [hline', anchors, hline],
    by rwa [hline', hline], by rwa [hline]⟩

theorem Page.tailed_write (page : Page) {text long : String} (hne : text ≠ "") (hw : AllWhite w)
    (hlong : long.toList = text.toList ++ w) (m n : Nat) :
    (page.write text m).Tailed (page.write long n) := by
  refine ⟨rfl, rfl, rfl, ⟨w, hw, ?_⟩, ?_⟩
  · simp only [Page.write, String.toList_append, hlong, List.append_assoc]
  · simp [Page.write, hne]

/-! ### Literals -/

/-- A space is written before a literal whatever it ends with. -/
theorem spaceBefore_withText (hs : s.Signed) (hkind : x.token.kind = .string ∨
    x.token.kind = .namedPlaceholder) (hw : AllWhite w)
    (htext : text.toList = x.token.text.toList ++ w) :
    s.spaceBefore ctx (x.withText text) = s.spaceBefore ctx x := by
  have hnone : ∀ t : Token, t.kind = .string ∨ t.kind = .namedPlaceholder →
      t.isBracket = false ∧ isOpeningBracket t = false ∧ (t.kind == .operator) = false := by
    rintro t (hk | hk) <;> simp [Token.isBracket, isOpeningBracket, hk]
  obtain ⟨hbracket, hopening, hoperator⟩ := hnone x.token hkind
  obtain ⟨hbracket', hopening', hoperator'⟩ := hnone (x.withText text).token hkind
  unfold State.spaceBefore
  cases hprev : s.prev with
  | none => rfl
  | some a =>
    have hspaced : s.spaced ctx a (x.withText text) = s.spaced ctx a x := by
      simp only [State.spaced, hbracket, hbracket', hopening, hopening', hoperator, hoperator',
        Bool.false_and, Bool.false_eq_true, if_false]
    simp only [hspaced]
    cases hk : a.kind with
    | operator =>
      cases w with
      | nil =>
        rw [List.append_nil, String.toList_inj] at htext
        rw [htext]
        rfl
      | cons c w =>
        have hstop : Scan.stopsSign c = true := by simp [Scan.stopsSign, hw c (by simp)]
        rw [wouldMerge_stop ctx.dialect hk hstop htext]
    | number =>
      -- a literal never touches a number
      have hunary : s.unary = false := by
        by_contra hu
        obtain ⟨b, hb, hsign⟩ := hs (by simpa using hu)
        rw [hprev, Option.some.injEq] at hb
        subst hb
        simp [Token.isOperator, hk] at hsign
      have hnumber : a.isBracket = false := by simp [Token.isBracket, hk]
      have htrue : s.spaced ctx a x = true := by
        simp [State.spaced, hunary, hbracket, hopening, hoperator, hk, hnumber]
      rw [htrue, Bool.true_or, Bool.true_or]
    | _ => simp [wouldMerge, hk]

theorem page_literal (hplain : ctx.Plain) (hkind : x.token.kind = .string ∨
    x.token.kind = .namedPlaceholder) :
    (s.step ctx x).page = ((s.page.advance (s.spaceBefore ctx x)).note s.pendingAnchor).write
      x.token.text (State.lastLineWidth x.token.text) := by
  have hcontent : s.step ctx x = { s.content ctx x with prev := some x.token } := by
    rcases hkind with hk | hk <;>
      simp [State.step, State.significant, hk, TokenKind.isComment]
  have hdisplay : State.displayText ctx x.token = x.token.text := by
    rcases hkind with hk | hk <;> simp [State.displayText, Token.isKeyword, hk, TokenKind.isReserved]
  have hanchor : s.anchorFor? ctx x.token = none := by
    rcases hkind with hk | hk <;> simp [State.anchorFor?, Token.isOperator, hk]
  rw [hcontent, State.content_eq]
  simp only [State.decided, State.sight, Sight.content, hanchor, Option.none_or, State.written,
    hplain.decorate, hdisplay, Page.place, Page.settle]

theorem tailed_literal (hplain : ctx.Plain) (hs : s.Signed) (hkind : x.token.kind = .string ∨
    x.token.kind = .namedPlaceholder) (hne : x.token.text ≠ "") (hw : AllWhite w)
    (htext : text.toList = x.token.text.toList ++ w) :
    (s.step ctx x).page.Tailed (s.step ctx (x.withText text)).page := by
  rw [page_literal hplain hkind, page_literal (x := x.withText text) hplain hkind,
    spaceBefore_withText hs hkind hw htext]
  exact Page.tailed_write _ hne hw htext _ _

/-! ### Comments -/

theorem tailed_comment (hplain : ctx.Plain) (hkind : x.token.kind = .blockComment) {c : Char}
    (hc : x.token.text.toList.head? = some c) (hvisible : isWhite c = false) (hw : AllWhite w)
    (htext : text.toList = x.token.text.toList ++ w) :
    (s.step ctx x).page.Tailed (s.step ctx (x.withText text)).page := by
  have hcomment : ∀ item : Item, item.token.kind = .blockComment →
      s.step ctx item = s.comment ctx item := by
    intro item hk
    rw [State.step, if_pos (by rw [hk]; rfl)]
  have hpage : s.commentPage (x.withText text) = s.commentPage x := rfl
  have hwritten : (s.commentWritten ctx x).Tailed (s.commentWritten ctx (x.withText text)) := by
    simp only [State.commentWritten, hplain.decorate, hpage]
    generalize (s.commentPage x).line.indent = indent
    have hline : (x.token.kind == TokenKind.lineComment) = false := by rw [hkind]; rfl
    have hline' : ((x.withText text).token.kind == TokenKind.lineComment) = false := hline
    obtain ⟨w', hw', hcomment⟩ : ∃ w', AllWhite w' ∧
        (State.commentText ctx (x.withText text).token indent).toList =
          (State.commentText ctx x.token indent).toList ++ w' := by
      simp only [State.commentText, hline, hline', Bool.false_eq_true, if_false]
      split
      · exact ⟨w, hw, htext⟩
      · exact exists_reindent_white _ indent hw htext
    refine Page.tailed_write _ ?_ hw' hcomment _ _
    simp only [State.commentText, hline, Bool.false_eq_true, if_false]
    split
    · intro habs
      rw [habs] at hc
      cases hc
    · exact reindent_ne_empty _ indent hc hvisible
  rw [hcomment x hkind, hcomment (x.withText text) hkind, State.comment_eq, State.comment_eq]
  refine hwritten.congr ?_ ?_ ?_ ?_ <;> simp only <;> split <;> rfl

/-- **The end of a text**: with white space behind its last token or without, a text is laid out alike, up
to white space at the end of the last line. -/
theorem tailed_run (hplain : ctx.Plain) (items : List Item) (hx : x.token.Sound ctx.dialect)
    (hkind : canBeOpen x.token.kind = true) (hw : AllWhite w)
    (htext : text.toList = x.token.text.toList ++ w) :
    (State.start.run ctx (items ++ [x])).page.Tailed
      (State.start.run ctx (items ++ [x.withText text])).page := by
  have hsigned : (State.start.run ctx items).Signed :=
    State.signed_run items fun habs => by simp [State.start] at habs
  obtain ⟨c, hc, hvisible⟩ := hx.opening (.inr hkind)
  have hne : x.token.text ≠ "" := by
    intro habs
    rw [habs] at hc
    cases hc
  rw [State.run, State.run, List.foldl_concat, List.foldl_concat]
  by_cases hcomment : x.token.kind = .blockComment
  · exact tailed_comment hplain hcomment hc hvisible hw htext
  · refine tailed_literal hplain hsigned ?_ hne hw htext
    simpa [canBeOpen, hcomment] using hkind

/-! ## Spaces before the end -/

theorem insertSpaces?_eq_some {offset count : Nat} {cs ds : List Char}
    (h : insertSpaces? offset count cs = some ds) :
    ∃ before after, cs = before ++ after ∧ offset = byteLength before ∧
      ds = before ++ (List.replicate count ' ' ++ after) := by
  induction cs generalizing offset ds with
  | nil =>
    rw [insertSpaces?] at h
    split at h
    · next hzero => exact ⟨[], [], rfl, hzero, by simpa using h.symm⟩
    · cases h
  | cons c cs ih =>
    rw [insertSpaces?] at h
    split_ifs at h with hzero hle
    · exact ⟨[], c :: cs, rfl, hzero, (Option.some.inj h).symm⟩
    · obtain ⟨rest, hrest, rfl⟩ := Option.map_eq_some_iff.mp h
      obtain ⟨before, after, rfl, hoffset, rfl⟩ := ih hrest
      exact ⟨c :: before, after, rfl, by rw [byteLength]; omega, rfl⟩

/-- What comes behind the place is only moved. -/
theorem insertSpaces?_tail {offset : Nat} {cs : List Char} (h : offset ≤ byteLength cs) (count : Nat)
    (w : List Char) :
    insertSpaces? offset count (cs ++ w) = (insertSpaces? offset count cs).map (· ++ w) := by
  induction cs generalizing offset with
  | nil =>
    obtain rfl : offset = 0 := Nat.le_zero.mp h
    cases w <;> simp [insertSpaces?]
  | cons c cs ih =>
    rw [byteLength] at h
    rw [List.cons_append, insertSpaces?, insertSpaces?]
    split_ifs with hzero hle
    · simp
    · rw [ih (by omega), Option.map_map, Option.map_map]
      rfl
    · rfl

/-! ## Lines -/

/-- The second line is the first with white space behind it, and no anchor stands in that. -/
structure Line.Tailed (line long : Line) : Prop where
  indent : long.indent = line.indent
  anchors : long.anchors = line.anchors
  /-- Nothing is added to an empty line. -/
  text : ∃ w, AllWhite w ∧ (line.text.toList = [] → w = []) ∧ long.text.toList = line.text.toList ++ w
  within : ∀ a ∈ line.anchors, a.offset ≤ byteLength line.text.toList

variable {line long : Line} {lines longs : List Line}

theorem Line.AllAnchored.within (h : line.AllAnchored) :
    ∀ a ∈ line.anchors, a.offset ≤ byteLength line.text.toList := by
  intro a ha
  obtain ⟨before, after, htext, hoffset⟩ := h a.kind a ha rfl
  rw [htext, hoffset, byteLength_append]
  omega

theorem Line.AllAnchored.tailed (h : line.AllAnchored) : line.Tailed line :=
  ⟨rfl, rfl, ⟨[], List.forall_mem_nil _, fun _ => rfl, (List.append_nil _).symm⟩, h.within⟩

theorem Page.Tailed.forall₂_lines {page long : Page} (h : page.Tailed long)
    (hanchored : ∀ line ∈ page.lines, line.AllAnchored) :
    List.Forall₂ Line.Tailed page.lines long.lines := by
  obtain ⟨hdone, hindent, hanchors, ⟨w, hw, htext⟩, hne⟩ := h
  have hlast : page.line.AllAnchored := hanchored _ (by simp [Page.lines])
  have hline : page.line.Tailed long.line :=
    ⟨hindent, hanchors, ⟨w, hw, fun hnil => absurd (String.toList_eq_nil_iff.mp hnil) hne, htext⟩,
      hlast.within⟩
  rw [Page.lines, Page.lines, hdone]
  refine List.rel_reverse (.cons hline (List.forall₂_same.mpr fun line hmem => ?_))
  exact (hanchored line (by simp [Page.lines, hmem])).tailed

theorem Line.Tailed.isEmpty_eq (h : line.Tailed long) : long.text.isEmpty = line.text.isEmpty := by
  obtain ⟨w, -, hnil, htext⟩ := h.text
  rw [Bool.eq_iff_iff, String.isEmpty_iff, String.isEmpty_iff, ← String.toList_eq_nil_iff,
    ← String.toList_eq_nil_iff, htext, List.append_eq_nil_iff, and_iff_left_of_imp hnil]

theorem Line.Tailed.renderLine (h : line.Tailed long) (unit : String) :
    renderLine unit long = renderLine unit line := by
  have hempty := h.isEmpty_eq
  obtain ⟨hindent, -, ⟨w, hw, -, htext⟩, -⟩ := h
  have htrim : trimEnd long.text = trimEnd line.text := by
    rw [trimEnd, trimEnd, htext, dropWhileEnd_append_white _ hw]
  unfold Layout.renderLine
  rw [hempty, hindent, htrim]

/-- Rendering does not see the white space. -/
theorem render_tailed (h : List.Forall₂ Line.Tailed lines longs) (unit : String) :
    render unit longs = render unit lines := by
  have hmap : longs.map (renderLine unit) = lines.map (renderLine unit) := by
    induction h with
    | nil => rfl
    | cons hline _ ih => rw [List.map_cons, List.map_cons, hline.renderLine, ih]
  rw [render, render, hmap]

namespace Alignment

variable {row long : Row} {rows longs : List Row} {kind : AnchorKind} {slot : Nat}

/-- The second row is the first with white space behind it, and the spaces put in so far stand before
that. -/
structure Row.Tailed (row long : Row) : Prop where
  line : row.line.Tailed long.line
  shift : long.shift = row.shift
  within : ∀ a ∈ row.line.anchors, a.offset + row.shift ≤ byteLength row.line.text.toList

theorem Row.Tailed.anchor? (h : row.Tailed long) (kind : AnchorKind) (slot : Nat) :
    long.line.anchor? kind slot = row.line.anchor? kind slot := by
  rw [Line.anchor?, Line.anchor?, h.line.anchors]

/-- Spaces are put in at the same place, or not at all. -/
theorem Row.Tailed.pad (h : row.Tailed long) {a : Anchor} (ha : a ∈ row.line.anchors) (count : Nat) :
    Option.Rel Row.Tailed
      ((row.line.pad? (a.offset + row.shift) count).map (⟨·, row.shift + count⟩))
      ((long.line.pad? (a.offset + row.shift) count).map (⟨·, row.shift + count⟩)) := by
  obtain ⟨w, hw, hnil, htext⟩ := h.line.text
  rw [Line.pad?, Line.pad?, htext, insertSpaces?_tail (h.within a ha)]
  cases hinsert : insertSpaces? (a.offset + row.shift) count row.line.text.toList with
  | none => exact .none
  | some cs =>
    obtain ⟨before, after, hsplit, -, rfl⟩ := insertSpaces?_eq_some hinsert
    have hbytes : byteLength (before ++ (List.replicate count ' ' ++ after)) =
        byteLength row.line.text.toList + count := by
      rw [hsplit]
      simp only [byteLength_append, byteLength_spaces]
      omega
    refine .some ⟨⟨h.line.indent, h.line.anchors, ⟨w, hw, fun hempty => hnil ?_, ?_⟩, fun b hb => ?_⟩,
      rfl, fun b hb => ?_⟩
    · simp only [String.toList_ofList, List.append_eq_nil_iff] at hempty
      rw [hsplit, hempty.1, hempty.2.2, List.append_nil]
    · simp only [String.toList_ofList]
    · have := h.within b hb
      simp only [String.toList_ofList, hbytes]
      omega
    · have := h.within b hb
      simp only [String.toList_ofList, hbytes]
      omega

theorem moveTo?_tailed (h : row.Tailed long) (target : Nat) :
    Option.Rel Row.Tailed (row.moveTo? kind slot target) (long.moveTo? kind slot target) := by
  unfold Row.moveTo?
  rw [h.anchor?]
  cases ha : row.line.anchor? kind slot with
  | none => exact .some h
  | some a =>
    simp only [h.shift]
    split
    · exact .some h
    · exact h.pad (Line.anchor?_eq_some ha).1 _

/-! ## All slots of a group -/

theorem alignSlot?_tailed (h : List.Forall₂ Row.Tailed rows longs) :
    Option.Rel (List.Forall₂ Row.Tailed) (alignSlot? kind slot rows) (alignSlot? kind slot longs) := by
  have hcolumns : rows.filterMap (·.column? kind slot) = longs.filterMap (·.column? kind slot) :=
    filterMap_eq_of_forall₂ h fun row long hrow => by
      rw [Row.column?, Row.column?, hrow.anchor?, hrow.shift]
  unfold alignSlot?
  rw [hcolumns]
  simp only
  split
  · exact .some h
  · exact mapM_rel h fun row long hrow => moveTo?_tailed hrow _

theorem alignSlots?_tailed (h : List.Forall₂ Row.Tailed rows longs) (count : Nat) :
    Option.Rel (List.Forall₂ Row.Tailed) (alignSlots? kind slot count rows)
      (alignSlots? kind slot count longs) := by
  induction count generalizing slot rows longs with
  | zero => exact .some h
  | succ count ih => exact rel_bind (alignSlot?_tailed h) fun rows longs hrows => ih hrows

theorem alignGroup?_tailed {lines longs : List Line} (h : List.Forall₂ Line.Tailed lines longs) :
    Option.Rel (List.Forall₂ Line.Tailed) (alignGroup? kind lines) (alignGroup? kind longs) := by
  have hslots : slots kind lines = slots kind longs := by
    unfold slots
    congr 1
    induction h with
    | nil => rfl
    | cons hline _ ih => rw [List.flatMap_cons, List.flatMap_cons, hline.anchors, ih]
  unfold alignGroup?
  rw [hslots]
  cases (slots kind longs).max? with
  | none => exact .some h
  | some last =>
    have hstart : List.Forall₂ Row.Tailed (lines.map (⟨·, 0⟩)) (longs.map (⟨·, 0⟩)) := by
      rw [List.forall₂_map_left_iff, List.forall₂_map_right_iff]
      exact h.imp fun line long hline => ⟨hline, rfl, hline.within⟩
    refine rel_map (alignSlots?_tailed hstart (last + 1)) fun rows longs hrows => ?_
    rw [List.forall₂_map_left_iff, List.forall₂_map_right_iff]
    exact hrows.imp fun row long hrow => hrow.line

/-! ## All groups and all kinds -/

theorem align?_tailed {lines longs : List Line} (h : List.Forall₂ Line.Tailed lines longs) :
    Option.Rel (List.Forall₂ Line.Tailed) (align? kind lines) (align? kind longs) := by
  have hgroups := forall₂_splitBy h (f := together) (g := together)
    fun line long hline line' long' hline' => by
      rw [together, together, hline.indent, hline'.indent, hline'.isEmpty_eq]
  have hmap := mapM_rel (f := alignGroup? kind) (g := alignGroup? kind) hgroups
    fun group group' hgroup => alignGroup?_tailed hgroup
  exact rel_map hmap fun groups groups' hall => List.rel_flatten hall

/-- Alignment does not see the white space. -/
theorem alignAll?_tailed (style : Style) {lines longs : List Line}
    (h : List.Forall₂ Line.Tailed lines longs) :
    Option.Rel (List.Forall₂ Line.Tailed) (alignAll? style lines) (alignAll? style longs) := by
  have hpass : ∀ (wanted : Bool) (kind : AnchorKind) {lines longs : List Line},
      List.Forall₂ Line.Tailed lines longs → Option.Rel (List.Forall₂ Line.Tailed)
        (if wanted then align? kind lines else some lines)
        (if wanted then align? kind longs else some longs) := by
    intro wanted kind lines longs h
    cases wanted with
    | true => exact align?_tailed h
    | false => exact .some h
  rw [alignAll?_eq, alignAll?_eq]
  exact rel_bind (hpass _ _ h) fun _ _ h => rel_bind (hpass _ _ h) fun _ _ h => hpass _ _ h

end Alignment

end SqlFormat.Layout

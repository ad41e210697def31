import Mathlib
import SqlFormat.Checked.Step
import SqlFormat.Proofs.Checked.Groups
import SqlFormat.Proofs.Checked.Lexer
import SqlFormat.Proofs.Checked.Nesting
import SqlFormat.Proofs.Layout.Blocks

/-!
# Layout of tokens meets no fault

Every rule gives what it gives without a check, where the open blocks are counted right, and they are
counted right after every token.

Results: `wouldMerge_eq`, `significant_eq` (one token), `linesOf_eq` (all of them).
-/

namespace SqlFormat.Checked

open Text SqlFormat.Scan Bytes

/-! ## Tokens that run together -/

theorem wouldMerge_eq (dialect : Dialect) (first second : Token) :
    wouldMerge dialect.lexicon first second =
      .ok (SqlFormat.wouldMerge dialect.lexicon first second) := by
  have hbytes : (ofString (first.text ++ second.text)).chars =
      bytesOf (first.text.toList ++ second.text.toList) := by
    rw [chars_ofString, String.toList_append]
  have hlength : offset (first.text.toList ++ second.text.toList) first.text.length =
      first.text.utf8ByteSize := by
    rw [← String.length_toList, offset_length, Lexer.byteLength_eq, String.ofList_toList]
  have hfirst : first.text.length ≤ (first.text.toList ++ second.text.toList).length := by
    rw [List.length_append, String.length_toList]
    exact Nat.le_add_right _ _
  have hne : ∀ n ≤ (first.text.toList ++ second.text.toList).length,
      (offset (first.text.toList ++ second.text.toList) n != first.text.utf8ByteSize) =
        (n != first.text.length) := by
    intro n hn
    rw [← hlength, Bool.eq_iff_iff, bne_iff_ne, bne_iff_ne, Ne, Ne, offset_inj hn hfirst]
  rw [wouldMerge, SqlFormat.wouldMerge]
  cases first.kind with
  | number =>
    simp only [Scan.number_eq, hbytes, number_bytesOf, ok_bind, pure_eq]
    rw [hne _ (SqlFormat.Scan.number_le _)]
  | operator =>
    have hcompound := hne _ (SqlFormat.Scan.compoundOperator_le
      (first.text.toList ++ second.text.toList))
    rw [offset_compoundOperator] at hcompound
    simp only [Scan.compoundOperator_eq, hbytes, compoundOperator_bytesOf, ok_bind, pure_eq,
      Lexer.startsLineComment_eq hbytes, startsWith_eq, hcompound]
    rw [← startsBlockComment, startsBlockComment_bytesOf]
  | _ => rfl

namespace State

open SqlFormat.Layout

variable {ctx : Context} {s : State} {item : Item}

/-! ## Rules that open and close nothing -/

theorem spaceBefore_eq (ctx : Context) (s : State) (item : Item) :
    spaceBefore ctx s item = .ok (s.spaceBefore ctx item) := by
  rw [spaceBefore, Layout.State.spaceBefore]
  cases s.prev with
  | none => rfl
  | some prev =>
    simp only [wouldMerge_eq]
    cases s.spaced ctx prev item <;> rfl

theorem emit_eq (ctx : Context) (s : State) (item : Item) :
    emit ctx s item = .ok (s.emit ctx item) := by
  rw [emit, spaceBefore_eq]
  rfl

theorem content_eq (ctx : Context) (s : State) (item : Item) :
    content ctx s item = .ok (s.content ctx item) :=
  emit_eq ctx _ item

theorem topLevel_eq (ctx : Context) (s : State) (item : Item) :
    topLevel ctx s item = .ok (s.topLevel ctx item) := by
  simp only [topLevel, Layout.State.topLevel, content_eq, emit_eq]
  split <;> rfl

theorem topLevelNoIndent_eq (ctx : Context) (s : State) (item : Item) :
    topLevelNoIndent ctx s item = .ok (s.topLevelNoIndent ctx item) := by
  simp only [topLevelNoIndent, Layout.State.topLevelNoIndent, content_eq, emit_eq]
  split <;> rfl

theorem blockSection_eq (ctx : Context) (s : State) (frame : Frame) (item : Item) (key : String) :
    blockSection ctx s frame item key = .ok (s.blockSection ctx frame item key) := by
  rw [blockSection, Layout.State.blockSection, emit_eq, ok_bind]
  split <;> rfl

theorem newlineKeyword_eq (ctx : Context) (s : State) (item : Item) :
    newlineKeyword ctx s item = .ok (s.newlineKeyword ctx item) := by
  simp only [newlineKeyword, Layout.State.newlineKeyword, content_eq, blockSection_eq, emit_eq]
  split
  · rfl
  · split
    · rfl
    · cases s.nesting.topProcedural? with
      | none => rfl
      | some frame =>
        simp only
        split
        · rfl
        · split <;> rfl

theorem headerEnd_eq (ctx : Context) (s : State) (item : Item) :
    headerEnd ctx s item = .ok (s.headerEnd ctx item) := by
  rw [headerEnd, Layout.State.headerEnd, emit_eq, ok_bind]
  cases (s.emit ctx item).nesting.top? <;> rfl

theorem comma_eq (ctx : Context) (s : State) (item : Item) :
    comma ctx s item = .ok (s.comma ctx item) := by
  rw [comma, Layout.State.comma, emit_eq, ok_bind]
  simp only
  split <;> rfl

theorem blockSemicolon_eq (ctx : Context) (s : State) (nesting : Nesting) (item : Item) :
    blockSemicolon ctx s nesting item = .ok (s.blockSemicolon ctx nesting item) := by
  rw [blockSemicolon, Layout.State.blockSemicolon, emit_eq, ok_bind]
  cases (Layout.State.emit ctx { s with between := false, nesting := nesting } item).nesting.top? <;>
    rfl

theorem continueDeclare_eq (ctx : Context) (s : State) (frame : Frame) (item : Item) :
    continueDeclare ctx s frame item = .ok (s.continueDeclare ctx frame item) := by
  rw [continueDeclare, Layout.State.continueDeclare, emit_eq]
  rfl

/-! ## Rules that open and close blocks -/

/-- Writing a token leaves the blocks as they are. -/
theorem emit_sound (h : s.nesting.Sound) (ctx : Context) (item : Item) :
    (s.emit ctx item).nesting.Sound := by
  rw [Layout.State.emit_eq]
  exact h

theorem querySemicolon_eq (h : s.nesting.Sound) (ctx : Context) (item : Item) :
    querySemicolon ctx s item = .ok (s.querySemicolon ctx item) := by
  rw [querySemicolon, Layout.State.querySemicolon, Nesting.clear_eq h, ok_bind, emit_eq]
  rfl

theorem semicolon_eq (h : s.nesting.Sound) (ctx : Context) (item : Item) :
    semicolon ctx s item = .ok (s.semicolon ctx item) := by
  rw [semicolon, Layout.State.semicolon, Nesting.toProcedural?_eq h, ok_bind,
    querySemicolon_eq h]
  split
  · cases s.nesting.toProcedural? with
    | none => rfl
    | some nesting => exact blockSemicolon_eq ctx s nesting item
  · rfl

theorem openBracket_eq (h : s.nesting.Sound) (ctx : Context) (item : Item) :
    openBracket ctx s item = .ok (s.openBracket ctx item) := by
  rw [openBracket, Layout.State.openBracket]
  simp only
  rw [emit_eq, ok_bind, Nesting.push_eq (emit_sound h ctx item), ok_bind]
  rfl

theorem openExpression_eq (h : s.nesting.Sound) (ctx : Context) (item : Item) (opener : Opener) :
    openExpression ctx s item opener = .ok (s.openExpression ctx item opener) := by
  rw [openExpression, Layout.State.openExpression]
  simp only
  rw [emit_eq, ok_bind, Nesting.push_eq (emit_sound h ctx item)]
  rfl

theorem openBlock_eq (h : s.nesting.Sound) (ctx : Context) (item : Item) (opener : Opener) :
    openBlock ctx s item opener = .ok (s.openBlock ctx item opener) := by
  rw [openBlock, Layout.State.openBlock]
  simp only
  -- a block may start a line of its own, which leaves the blocks as they are
  generalize hplaced : (if (item.token.keyText == "begin" || item.token.keyText == "declare") = true
    then s.newline s.nesting.base else s) = placed
  have hsound : placed.nesting.Sound := by
    rw [← hplaced]
    split <;> exact h
  rw [emit_eq, ok_bind, Nesting.push_eq (emit_sound hsound ctx item)]
  rfl

theorem openProcedural_eq (h : s.nesting.Sound) (ctx : Context) (item : Item) (opener : Opener) :
    openProcedural ctx s item opener = .ok (s.openProcedural ctx item opener) := by
  simp only [openProcedural, Layout.State.openProcedural, continueDeclare_eq, openBlock_eq h]
  cases s.nesting.topProcedural? with
  | none => rfl
  | some frame =>
    simp only
    split <;> rfl

theorem openGroup_eq (h : s.nesting.Sound) (ctx : Context) (item : Item) :
    openGroup ctx s item = .ok (s.openGroup ctx item) := by
  simp only [openGroup, Layout.State.openGroup, content_eq, openBracket_eq h, openProcedural_eq h,
    openExpression_eq h]
  split
  · rfl
  · split
    · rfl
    · cases ctx.dialect.lexicon.opener? item.token.keyText with
      | none => rfl
      | some opener =>
        simp only
        split <;> rfl

theorem closeGroup_eq (h : s.nesting.Sound) (ctx : Context) (item : Item) :
    closeGroup ctx s item = .ok (s.closeGroup ctx item) := by
  rw [closeGroup, Layout.State.closeGroup]
  split
  · next hover =>
    rw [minus_eq hover, ok_bind, content_eq]
  · next hover =>
    simp only
    rw [Nesting.close?_eq h (Nat.eq_zero_of_not_pos hover), ok_bind]
    cases s.nesting.close? fun f =>
        ctx.dialect.lexicon.closes (Layout.State.closerKey item.token) f.key with
    | none => exact content_eq ctx s item
    | some found => exact emit_eq ctx _ item

/-- **One token**: laying it out meets no fault where the open blocks are counted right. -/
theorem significant_eq (h : s.nesting.Sound) (ctx : Context) (item : Item) :
    significant ctx s item = .ok (s.significant ctx item) := by
  rw [significant, Layout.State.significant]
  cases item.token.kind <;>
    simp only [topLevel_eq, topLevelNoIndent_eq, newlineKeyword_eq, openGroup_eq h, closeGroup_eq h,
      semicolon_eq h, comma_eq, content_eq, headerEnd_eq]
  · split <;> rfl
  · split
    · rfl
    · split <;> rfl

end State

/-! ## Items -/

namespace Item

open SqlFormat.Layout

/-- What stands before the token after some others. -/
theorem before_eq (read rest : List Token) :
    before (read ++ rest).toArray read.length =
      .ok (read.foldl Item.Before.next .nothing) := by
  have hnext : ∀ (before : Item.Before) (t : Token), before.next t ≠ .nothing := by
    rintro (_ | _ | _) t <;> exact Item.Before.noConfusion
  have hthere : ∀ (read : List Token) (before : Item.Before), before ≠ .nothing →
      read.foldl Item.Before.next before ≠ .nothing := by
    intro read
    induction read with
    | nil => exact fun before h => h
    | cons u read ih => exact fun before _ => ih _ (hnext before u)
  cases read using List.reverseRecOn with
  | nil => rfl
  | append_singleton read t =>
    have hlast : element (read ++ [t] ++ rest).toArray read.length = .ok t :=
      element_eq (by simp)
    rw [before, List.length_append, List.length_singleton, if_neg (Nat.succ_ne_zero _),
      Nat.add_sub_cancel, hlast, ok_bind, List.foldl_append, List.foldl_cons, List.foldl_nil]
    cases read with
    | nil => rfl
    | cons u read =>
      rw [if_neg (by simp)]
      cases hbefore : (u :: read).foldl Item.Before.next .nothing with
      | nothing => exact absurd hbefore (hthere read _ (hnext _ u))
      | _ => rfl

theorem gather_eq (read rest : List Token) :
    gather (read ++ rest).toArray read.length rest =
      .ok (Layout.Item.gather (read.foldl Item.Before.next .nothing) rest) := by
  induction rest generalizing read with
  | nil => rfl
  | cons t rest ih =>
    have hnext := ih (read ++ [t])
    rw [List.append_assoc, List.length_append, List.singleton_append, List.length_singleton,
      List.foldl_append] at hnext
    have hafter : (read ++ t :: rest).toArray[read.length + 1]? = rest.head? := by
      rw [List.getElem?_toArray, List.getElem?_append_right (Nat.le_succ _),
        List.head?_eq_getElem?]
      simp
    rw [gather, before_eq, ok_bind, hafter, hnext, ok_bind, Layout.Item.gather]
    simp only [List.foldl_cons, List.foldl_nil, pure_eq]

theorem measure_eq (tokens : List Token) (i : Nat) (items : List Item) :
    measure (SqlFormat.Groups.ofTokens tokens) i items =
      .ok (Layout.Item.measure (SqlFormat.Groups.ofTokens tokens) i items) := by
  induction items generalizing i with
  | nil => rfl
  | cons item items ih =>
    rw [measure, Groups.inlineWidth?_eq, ok_bind, ih]
    rfl

theorem ofTokens_eq (tokens : List Token) :
    Item.ofTokens tokens.toArray = .ok (Layout.Item.ofTokens tokens).toArray := by
  have hgather := gather_eq [] tokens
  rw [List.nil_append, List.length_nil, List.foldl_nil] at hgather
  rw [Item.ofTokens, hgather, ok_bind, Groups.ofTokens_eq, ok_bind, measure_eq]
  rfl

end Item

/-! ## The run -/

namespace Run

open SqlFormat.Layout

variable {ctx : Context} {items : List Item} {progress : Progress} {s : State}

/-- The index of the last token that was not a comment is that of the token in the state. -/
structure Tracks (progress : Progress) (items : List Item) (s : State) : Prop where
  state : { progress.state with prev := s.prev } = s
  prev : ∃ last, progress.prev.mapM (element items.toArray) = .ok last ∧
    last.map (·.token) = s.prev

theorem step_tracks (h : Tracks progress items s) (hs : s.nesting.Sound) {i : Nat} {item : Item}
    (hitem : items[i]? = some item) :
    ∃ next, step ctx items.toArray progress i item = .ok next ∧
      Tracks next items (s.step ctx item) := by
  obtain ⟨last, hlast, hprev⟩ := h.prev
  rw [step, hlast, ok_bind, hprev, h.state, Layout.State.step]
  -- a comment is not what the next token looks back at, so the index stays
  split
  · have hsame : (s.comment ctx item).prev = s.prev := by rw [State.comment_eq]
    exact ⟨_, rfl, rfl, last, hlast, by rw [hprev, hsame]⟩
  · simp only [State.significant_eq hs, ok_bind]
    have helement : element items.toArray i = .ok item :=
      element_eq (by rw [List.getElem?_toArray, hitem])
    refine ⟨_, rfl, rfl, some item, ?_, rfl⟩
    rw [Option.mapM_some, helement]
    rfl

theorem run_tracks {read rest : List Item} (hitems : items = read ++ rest)
    (h : Tracks progress items s) (hs : s.nesting.Sound) :
    ∃ next, run ctx items.toArray progress read.length rest = .ok next ∧
      Tracks next items (s.run ctx rest) := by
  induction rest generalizing read progress s with
  | nil => exact ⟨progress, rfl, h⟩
  | cons item rest ih =>
    have hitem : items[read.length]? = some item := by rw [hitems]; simp
    obtain ⟨next, hnext, htracks⟩ := @step_tracks ctx _ _ _ h hs _ _ hitem
    have hrest := @ih _ _ (read ++ [item]) (by rw [hitems, List.append_assoc]; rfl) htracks
      (Layout.State.step_sound ctx hs item)
    rw [List.length_append] at hrest
    rw [run, hnext, ok_bind]
    exact hrest

end Run

/-- **All tokens**: they are laid out without a fault. -/
theorem linesOf_eq (ctx : Layout.Context) (tokens : List Token) :
    linesOf ctx tokens.toArray = .ok (Layout.linesOf ctx tokens) := by
  have hstart : Run.Tracks .start (Layout.Item.ofTokens tokens) .start := ⟨rfl, none, rfl, rfl⟩
  obtain ⟨next, hnext, htracks⟩ := @Run.run_tracks ctx _ _ _ [] _ (List.nil_append _).symm hstart
    Layout.Nesting.sound_start
  rw [List.length_nil] at hnext
  have hpage : next.state.page = (Layout.State.start.run ctx (Layout.Item.ofTokens tokens)).page :=
    (congrArg Layout.State.page htracks.state :)
  rw [linesOf, Item.ofTokens_eq, ok_bind, List.toList_toArray, hnext, ok_bind, hpage]
  rfl

end SqlFormat.Checked

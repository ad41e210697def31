import Mathlib
import SqlFormat.Proofs.Layout.Turn

/-!
# What layout reads of a token

Layout reads a token through its kind, its key, the text that is written for it and, for brackets,
operators and words, its text. It reads the token before only to decide on a space and on a sign. Two
tokens that agree in this are `Alike`, and laying out one or the other gives the same state, up to
the token that is remembered.

Results: `significant_following`.
-/

namespace SqlFormat.Layout

variable {ctx : Context} {s : State} {p : Option Token} {t u : Token} {item other : Item}

/-- Layout cannot tell the tokens apart. -/
structure Alike (ctx : Context) (t u : Token) : Prop where
  kind : t.kind = u.kind
  bracket : t.isBracket = u.isBracket
  key : t.keyText = u.keyText
  display : State.displayText ctx t = State.displayText ctx u
  /-- Only the texts of keywords may differ. -/
  text : t.isKeyword = false → t.text = u.text

namespace Alike

theorem of_text (hkind : t.kind = u.kind) (htext : t.text = u.text) : Alike ctx t u := by
  obtain ⟨kind, text, pos, key⟩ := t
  obtain ⟨kind', text', pos', key'⟩ := u
  obtain rfl : kind = kind' := hkind
  obtain rfl : text = text' := htext
  exact ⟨rfl, rfl, rfl, rfl, fun _ => rfl⟩

theorem text_of_kind (h : Alike ctx t u) (hreserved : t.kind.isReserved = false)
    (hopen : t.kind ≠ .openParen) (hclose : t.kind ≠ .closeParen) : t.text = u.text :=
  h.text (by simp [Token.isKeyword, hreserved, hopen, hclose])

theorem text_of_bracket (h : Alike ctx t u) (hbracket : t.isBracket = true) : t.text = u.text := by
  refine h.text ?_
  have hkind : t.kind.isReserved = false := by
    simp only [Token.isBracket, Bool.and_eq_true, Bool.or_eq_true, beq_iff_eq] at hbracket
    obtain ⟨hopen | hclose, -⟩ := hbracket
    · rw [hopen]; rfl
    · rw [hclose]; rfl
  simp [Token.isKeyword, hbracket, hkind]

theorem text_of_operator (h : Alike ctx t u) (hkind : t.kind = .operator) : t.text = u.text :=
  h.text_of_kind (by rw [hkind]; rfl) (by simp [hkind]) (by simp [hkind])

/-- A test of the text of an operator. -/
theorem operatorText (h : Alike ctx t u) (test : String → Bool) :
    (t.kind == .operator && test t.text) = (u.kind == .operator && test u.text) := by
  rw [← h.kind]
  by_cases hkind : t.kind = .operator
  · rw [h.text_of_operator hkind]
  · rw [beq_eq_false_iff_ne.mpr hkind]
    rfl

theorem isOperator (h : Alike ctx t u) (op : String) : t.isOperator op = u.isOperator op :=
  h.operatorText (· == op)

theorem isOpeningBracket (h : Alike ctx t u) : isOpeningBracket t = isOpeningBracket u := by
  simp only [Layout.isOpeningBracket, h.kind, h.bracket]

/-- A test of the text of a bracket. -/
theorem bracketText (h : Alike ctx t u) (test : String → Bool) :
    (t.isBracket && test t.text) = (u.isBracket && test u.text) := by
  rw [← h.bracket]
  cases hbracket : t.isBracket with
  | false => rfl
  | true => rw [h.text_of_bracket hbracket]

theorem closerKey (h : Alike ctx t u) : State.closerKey t = State.closerKey u := by
  unfold State.closerKey
  rw [← h.bracket, ← h.key]
  split
  · next hbracket => exact h.text_of_bracket hbracket
  · rfl

/-- Only numbers and operators run together with what comes next. -/
theorem wouldMerge (h : Alike ctx t u) (lexicon : Lexicon) {next next' : Token}
    (hnext : next.text = next'.text) :
    SqlFormat.wouldMerge lexicon t next = SqlFormat.wouldMerge lexicon u next' := by
  unfold SqlFormat.wouldMerge
  rw [← h.kind, ← hnext]
  cases hkind : t.kind with
  | number =>
    simp only [h.text_of_kind (by rw [hkind]; rfl) (by simp [hkind]) (by simp [hkind])]
  | operator => simp only [h.text_of_operator hkind]
  | _ => rfl

end Alike

namespace State

/-- The state with another token before. -/
def following (s : State) (p : Option Token) : State := { s with prev := p }

/-- Layout asks whether a bracket stood apart in the source only of opening brackets, and not of those that
follow an operator or another opening bracket, or stand apart from `ARRAY` anyway. -/
structure ReadsApart (ctx : Context) (prev token : Token) : Prop where
  opening : isOpeningBracket token = true
  operator : prev.kind ≠ .operator
  bracket : (prev.isBracket && (prev.text == "(" || prev.text == "[")) = false
  text : (token.isBracket && (token.text == ")" || token.text == "]")) = false
  array : (token.text == "[" && ctx.dialect.arrayBracketSpace && prev.keyText == "array") = false

/-- A space belongs between two tokens if it belongs between two that are like them. -/
theorem spaced_following {prev prev' : Token} (hprev : Alike ctx prev prev')
    (htoken : Alike ctx item.token other.token)
    (hapart : ReadsApart ctx prev item.token → item.apart = other.apart) :
    (s.following p).spaced ctx prev' other = s.spaced ctx prev item := by
  have hopener : (prev.isBracket && (prev.text == "(" || prev.text == "[")) =
      (prev'.isBracket && (prev'.text == "(" || prev'.text == "[")) :=
    hprev.bracketText fun text => text == "(" || text == "["
  have hcloser : (item.token.isBracket && (item.token.text == ")" || item.token.text == "]")) =
      (other.token.isBracket && (other.token.text == ")" || other.token.text == "]")) :=
    htoken.bracketText fun text => text == ")" || text == "]"
  have hbefore : (item.token.kind == .operator && !(ctx.dialect.spacing item.token.text).before) =
      (other.token.kind == .operator && !(ctx.dialect.spacing other.token.text).before) :=
    htoken.operatorText fun text => !(ctx.dialect.spacing text).before
  have hafter : (prev.kind == .operator && !(ctx.dialect.spacing prev.text).after) =
      (prev'.kind == .operator && !(ctx.dialect.spacing prev'.text).after) :=
    hprev.operatorText fun text => !(ctx.dialect.spacing text).after
  have hunary : (s.following p).unary = s.unary := rfl
  unfold spaced
  dsimp only
  rw [hunary, ← hopener, ← hcloser, ← hbefore, ← hafter, ← htoken.isOpeningBracket, ← hprev.key,
    ← hprev.kind]
  by_cases hopens : Layout.isOpeningBracket item.token = true
  · have hbracket : item.token.isBracket = true := by
      simp only [Layout.isOpeningBracket, Bool.and_eq_true] at hopens
      exact hopens.2
    rw [← htoken.text_of_bracket hbracket, if_pos hopens]
    split_ifs with _ hprevOpens hcloses _ _ harray hoperator <;> try rfl
    exact (hapart ⟨hopens, by simpa using hoperator, by simpa using hprevOpens,
      by simpa using hcloses, by simpa using harray⟩).symm
  · rw [if_neg hopens, if_neg hopens]

theorem isUnarySign_following (ht : Alike ctx t u) (hp : Option.Rel (Alike ctx) s.prev p) :
    (s.following p).isUnarySign u = s.isUnarySign t := by
  unfold isUnarySign following
  rw [ht.isOperator, ht.isOperator]
  cases hprev : s.prev with
  | none =>
    rw [hprev] at hp
    cases hp
    rfl
  | some prev =>
    rw [hprev] at hp
    cases hp with
    | some hp => simp only [hp.kind]

/-- The items are laid out alike in a state, and in the same state with another token before: their
tokens are alike, the group of one fits on the line if that of the other does, and a space that would
be written before one would be written before the other. -/
structure SameItem (ctx : Context) (s : State) (p : Option Token) (item other : Item) : Prop where
  token : Alike ctx item.token other.token
  fits : Groups.fitsIn item.inlineWidth (s.available ctx) =
    Groups.fitsIn other.inlineWidth (s.available ctx)
  prev : Option.Rel (Alike ctx) s.prev p
  space : s.page.breakAt = none →
    (s.following p).spaceBefore ctx other = s.spaceBefore ctx item

theorem advance_congr {page : Page} {a b : Bool} (h : page.breakAt = none → a = b) :
    page.advance a = page.advance b := by
  unfold Page.advance
  cases hbreak : page.breakAt with
  | none => rw [h hbreak]
  | some indent => rfl

/-- Where the page is the one before or one on which a line is to be started, the same is written. -/
theorem emit_following (h : SameItem ctx s p item other) {page : Page}
    (hpage : page.breakAt = none → s.page.breakAt = none) (n : Nesting) (between : Bool)
    (anchor : Option (AnchorKind × Nat)) :
    emit ctx ⟨n, page, p, s.unary, between, anchor⟩ other =
      (emit ctx ⟨n, page, s.prev, s.unary, between, anchor⟩ item).following p := by
  have hadvance : page.advance ((s.following p).spaceBefore ctx other) =
      page.advance (s.spaceBefore ctx item) := advance_congr fun hnone => h.space (hpage hnone)
  have hsign := isUnarySign_following h.token h.prev
  unfold emit
  simp only [← h.token.display, ← h.token.kind]
  change { write ctx (dropAnchor { page := page.advance ((s.following p).spaceBefore ctx other), .. })
    _ _ with unary := (s.following p).isUnarySign other.token } = _
  rw [hadvance, hsign]
  cases anchor <;> rfl

theorem emit_same (h : SameItem ctx s p item other) (n : Nesting) (between : Bool)
    (anchor : Option (AnchorKind × Nat)) :
    emit ctx ⟨n, s.page, p, s.unary, between, anchor⟩ other =
      (emit ctx ⟨n, s.page, s.prev, s.unary, between, anchor⟩ item).following p :=
  emit_following h id n between anchor

theorem emit_newline (h : SameItem ctx s p item other) (n : Nesting) (indent : Nat) (between : Bool)
    (anchor : Option (AnchorKind × Nat)) :
    emit ctx ⟨n, s.page.newline indent, p, s.unary, between, anchor⟩ other =
      (emit ctx ⟨n, s.page.newline indent, s.prev, s.unary, between, anchor⟩ item).following p :=
  emit_following h (fun hnone => by cases hnone) n between anchor

theorem content_following (h : SameItem ctx s p item other) :
    (s.following p).content ctx other = (s.content ctx item).following p := by
  have hanchor : anchorFor? ctx (s.following p) other.token = s.anchorFor? ctx item.token := by
    unfold anchorFor?
    simp only [← h.token.kind, ← h.token.key, ← h.token.isOperator]
    rfl
  unfold content
  simp only [hanchor, ← h.token.kind, ← h.token.key]
  exact emit_same h _ _ _

/-! ## Every rule -/

theorem keepsLine_following : (s.following p).keepsLine = s.keepsLine := rfl

theorem topLevel_following (h : SameItem ctx s p item other) :
    (s.following p).topLevel ctx other = (s.topLevel ctx item).following p := by
  unfold topLevel
  simp only [keepsLine_following, content_following h, ← h.token.key]
  simp only [following, State.newline, emit_newline h]
  split_ifs <;> rfl

theorem topLevelNoIndent_following (h : SameItem ctx s p item other) :
    (s.following p).topLevelNoIndent ctx other = (s.topLevelNoIndent ctx item).following p := by
  unfold topLevelNoIndent
  simp only [keepsLine_following, content_following h]
  simp only [following, State.newline, emit_newline h]
  split_ifs <;> rfl

theorem blockSection_following (h : SameItem ctx s p item other) (frame : Frame) (key : String) :
    (s.following p).blockSection ctx frame other key =
      (s.blockSection ctx frame item key).following p := by
  unfold blockSection
  simp only [following, State.newline, emit_newline h]
  split_ifs <;> rfl

theorem newlineKeyword_following (h : SameItem ctx s p item other) :
    (s.following p).newlineKeyword ctx other = (s.newlineKeyword ctx item).following p := by
  have hbetween : ({ s with between := false }.following p).content ctx other =
      ({ s with between := false }.content ctx item).following p :=
    content_following ⟨h.token, h.fits, h.prev, h.space⟩
  have hplain : ∀ indent, ((s.following p).newline indent).emit ctx other =
      ((s.newline indent).emit ctx item).following p := fun indent =>
    emit_newline h s.nesting indent s.between s.pendingAnchor
  unfold newlineKeyword
  simp only [keepsLine_following, content_following h, hplain, blockSection_following h,
    ← h.token.key]
  change (if _ then ({ s with between := false }.following p).content ctx other else _) = _
  rw [hbetween]
  cases hframe : s.nesting.topProcedural? with
  | none =>
    simp only [following, hframe]
    split_ifs <;> rfl
  | some frame =>
    simp only [following, hframe]
    split_ifs <;> rfl

theorem headerEnd_following (h : SameItem ctx s p item other) :
    (s.following p).headerEnd ctx other = (s.headerEnd ctx item).following p := by
  have hemit : (s.following p).emit ctx other = (s.emit ctx item).following p :=
    emit_same h s.nesting s.between s.pendingAnchor
  unfold headerEnd
  rw [hemit]
  simp only [following, State.newline]
  cases (s.emit ctx item).nesting.top? <;> rfl

theorem comma_following (h : SameItem ctx s p item other) :
    (s.following p).comma ctx other = (s.comma ctx item).following p := by
  have hemit : (s.following p).emit ctx other = (s.emit ctx item).following p :=
    emit_same h s.nesting s.between s.pendingAnchor
  have hvalue : ∀ r : State, (r.following p).nextValue = r.nextValue.following p := by
    intro r
    unfold nextValue
    simp only [following]
    cases r.nesting.top?.bind (·.valueSlot) <;> rfl
  unfold comma
  rw [hemit, hvalue]
  generalize (s.emit ctx item).nextValue = written
  dsimp only
  change (if written.keepsLine || written.nesting.clause == some .limit then written.following p
    else (written.newline written.nesting.depth).following p) = _
  split_ifs <;> rfl

theorem semicolon_following (h : SameItem ctx s p item other) :
    (s.following p).semicolon ctx other = (s.semicolon ctx item).following p := by
  unfold semicolon blockSemicolon querySemicolon
  simp only [following, State.newline, emit_same h]
  cases s.nesting.toProcedural? with
  | none => split_ifs <;> rfl
  | some n =>
    simp only
    cases ({ s with between := false, nesting := n }.emit ctx item).nesting.top? <;> split_ifs <;> rfl

theorem openBracket_following (h : SameItem ctx s p item other) (hbracket : item.token.isBracket) :
    (s.following p).openBracket ctx other = (s.openBracket ctx item).following p := by
  have hroom : (s.following p).available ctx = s.available ctx := rfl
  have hnesting : (s.following p).nesting = s.nesting := rfl
  have hemit : (s.following p).emit ctx other = (s.emit ctx item).following p :=
    emit_same h s.nesting s.between s.pendingAnchor
  unfold openBracket
  simp only [hroom, hnesting, hemit, ← h.fits, ← h.token.text_of_bracket hbracket]
  split_ifs <;> rfl

theorem openExpression_following (h : SameItem ctx s p item other) (opener : Opener) :
    (s.following p).openExpression ctx other opener =
      (s.openExpression ctx item opener).following p := by
  unfold openExpression
  simp only [← h.token.key]
  simp only [following, emit_same h]

theorem openProcedural_following (h : SameItem ctx s p item other) (opener : Opener) :
    (s.following p).openProcedural ctx other opener =
      (s.openProcedural ctx item opener).following p := by
  have hblock : (s.following p).openBlock ctx other opener =
      (s.openBlock ctx item opener).following p := by
    unfold openBlock
    simp only [← h.token.key]
    split_ifs <;> simp only [following, State.newline, emit_same h, emit_newline h]
  have hdeclare : ∀ frame, (s.following p).continueDeclare ctx frame other =
      (s.continueDeclare ctx frame item).following p := by
    intro frame
    unfold continueDeclare
    simp only [following, State.newline, emit_newline h, ← h.token.key]
  unfold openProcedural
  simp only [hblock, hdeclare, ← h.token.key]
  simp only [following]
  cases s.nesting.topProcedural? with
  | none => rfl
  | some frame =>
    simp only
    split_ifs <;> rfl

theorem openGroup_following (h : SameItem ctx s p item other) :
    (s.following p).openGroup ctx other = (s.openGroup ctx item).following p := by
  have hskip : ({ s with nesting := { s.nesting with overflow := s.nesting.overflow + 1 } }.following
      p).content ctx other = _ := content_following ⟨h.token, h.fits, h.prev, h.space⟩
  unfold openGroup
  by_cases hfull : s.nesting.isFull = true
  · rw [if_pos (by exact hfull), if_pos hfull]
    exact hskip
  rw [if_neg (by exact hfull), if_neg hfull, ← h.token.bracket, ← h.token.key]
  by_cases hbracket : item.token.isBracket = true
  · rw [if_pos hbracket, if_pos hbracket]
    exact openBracket_following h hbracket
  rw [if_neg hbracket, if_neg hbracket]
  cases ctx.dialect.lexicon.opener? item.token.keyText with
  | none => exact content_following h
  | some opener =>
    simp only [openProcedural_following h, openExpression_following h]
    split_ifs <;> rfl

theorem closeGroup_following (h : SameItem ctx s p item other) :
    (s.following p).closeGroup ctx other = (s.closeGroup ctx item).following p := by
  have hskip : ({ s with nesting := { s.nesting with overflow := s.nesting.overflow - 1 } }.following
      p).content ctx other = _ := content_following ⟨h.token, h.fits, h.prev, h.space⟩
  unfold closeGroup
  by_cases hover : 0 < s.nesting.overflow
  · rw [if_pos (by exact hover), if_pos hover]
    exact hskip
  rw [if_neg (by exact hover), if_neg hover, ← h.token.closerKey]
  rw [show (s.following p).nesting = s.nesting from rfl]
  cases s.nesting.close? fun f => ctx.dialect.lexicon.closes (closerKey item.token) f.key with
  | none => exact content_following h
  | some closed =>
    obtain ⟨frame, nesting⟩ := closed
    cases hinline : frame.inline with
    | true =>
      simp only [hinline, if_true]
      exact emit_same h nesting s.between s.pendingAnchor
    | false =>
      simp only [hinline, Bool.false_eq_true, if_false]
      exact emit_newline h nesting frame.outer s.between s.pendingAnchor

/-- A token is laid out like one that is like it, whatever the tokens before are. -/
theorem significant_following (h : SameItem ctx s p item other) :
    (s.following p).significant ctx other = (s.significant ctx item).following p := by
  have hends : (s.following p).endsHeader other.token = s.endsHeader item.token := by
    unfold endsHeader
    simp only [← h.token.key]
    rfl
  unfold significant
  rw [← h.token.kind, hends]
  split
  · exact topLevel_following h
  · exact topLevelNoIndent_following h
  · exact newlineKeyword_following h
  · exact openGroup_following h
  · exact closeGroup_following h
  · next hkind =>
    simp only [← h.token.text_of_operator hkind, semicolon_following h, comma_following h,
      content_following h]
    split_ifs <;> rfl
  · simp only [headerEnd_following h, content_following h]
    split_ifs <;> rfl
  · exact content_following h

/-! ## A comment -/

/-- The page that a comment leaves depends on where it stands on its line and on what is written for it
there. -/
theorem commentWritten_following (hkind : item.token.kind = other.token.kind)
    (hstarts : item.startsLine = other.startsLine)
    (htext : commentText ctx other.token (s.commentPage item).line.indent =
      commentText ctx item.token (s.commentPage item).line.indent) :
    (s.following p).commentWritten ctx other = s.commentWritten ctx item := by
  have hbroken : (s.following p).broken other = (s.broken item).following p := by
    simp only [broken, ← hstarts]
    change (if item.startsLine && !s.page.atLineStart then _ else _) = _
    split_ifs <;> rfl
  have hpage : (s.following p).commentPage other = s.commentPage item := by
    simp only [commentPage, attaches, hbroken, ← hstarts]
    rfl
  simp only [commentWritten, hpage, htext, ← hkind]

/-- The token before has no say in how a comment is laid out. -/
theorem comment_following (hkind : item.token.kind = other.token.kind)
    (htext : item.token.text = other.token.text) (hstarts : item.startsLine = other.startsLine)
    (hends : item.endsLine = other.endsLine) :
    (s.following p).comment ctx other = (s.comment ctx item).following p := by
  have hcomment : ∀ indent, commentText ctx other.token indent = commentText ctx item.token indent := by
    intro indent
    simp only [commentText, hkind, htext]
  have hwritten : (s.following p).commentWritten ctx other = s.commentWritten ctx item :=
    commentWritten_following hkind hstarts (hcomment _)
  rw [comment_eq, comment_eq, hwritten, ← hends]
  rfl

end State

end SqlFormat.Layout

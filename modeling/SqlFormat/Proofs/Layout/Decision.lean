import Mathlib
import SqlFormat.Proofs.Layout.Turn

/-!
# What a decision depends on

`Turn` lists what layout may decide for a token. Here is what it does decide, rule by rule, as a function
of the little that it looks at: the open blocks, whether a `BETWEEN` waits, the indentation of the line
and the room on it, and the anchor that the token would ask for. Where two runs see the same, they decide
the same, whatever else is on their pages.

Results: `significant_eq`.
-/

namespace SqlFormat.Layout

/-! ## What is looked at -/

/-- What layout looks at to decide about a token other than a comment. -/
structure Sight where
  nesting : Nesting
  between : Bool
  /-- The indentation of the line that the next text goes to. -/
  indent : Nat
  /-- The room for a bracket group. -/
  room : Option Nat
  /-- The anchor that is asked for if the token is content. -/
  anchor : Option (AnchorKind × Nat)

/-- What layout sees before a token. -/
def State.sight (ctx : Context) (s : State) (token : Token) : Sight :=
  ⟨s.nesting, s.between, s.page.indent, s.available ctx, s.anchorFor? ctx token⟩

namespace Sight

open State (Decision frameAt)

variable (v : Sight)

/-! ## What is decided -/

/-- The token starts no line. -/
def keepsLine : Bool :=
  v.nesting.inInline || v.nesting.inHeader

/-- The token is only written. -/
def content : Decision :=
  ⟨none, v.anchor, v.nesting, none, none, 0⟩

/-- A keyword that starts a clause, or ends one. -/
def clause (clause : Option Clause) : Decision :=
  if v.keepsLine then v.content
  else ⟨some v.nesting.base, none, v.nesting.setClause clause, none,
    some (v.nesting.base + clause.isSome.toNat), 0⟩

/-- A keyword that stands on a line of its own. -/
def line (placed : Nat) : Decision :=
  ⟨some placed, none, v.nesting, none, none, 0⟩

/-- A keyword that starts a new section of a block. -/
def division (frame : Frame) (key : String) : Decision :=
  if key == "elsif" || key == "elseif" then
    ⟨some frame.outer, none,
      v.nesting.modifyTop fun f => { f with clause := none, headerEnd := some "then" },
      none, none, 0⟩
  else
    ⟨some frame.outer, none, v.nesting.modifyTop fun f => { f with clause := none }, none,
      some frame.base, 0⟩

/-- A keyword that starts a new line in a clause. -/
def keyword (lexicon : Lexicon) (key : String) : Decision :=
  if key == "and" && v.between then v.content
  else if v.keepsLine then v.content
  else
    match v.nesting.topProcedural? with
    | some frame =>
      if lexicon.isBlockSection key then v.division frame key
      else if key == "until" then v.line frame.outer
      else v.line v.nesting.depth
    | none => v.line v.nesting.depth

/-- The keyword that ends the header of a block. -/
def headerEnd : Decision :=
  ⟨none, none, v.nesting.modifyTop fun f => { f with headerEnd := none }, none,
    v.nesting.top?.map (·.base), 0⟩

/-- A comma. -/
def comma : Decision :=
  let settled :=
    if v.keepsLine || v.nesting.clause == some .limit then none else some v.nesting.depth
  match v.nesting.top?.bind (·.valueSlot) with
  | some slot =>
    ⟨none, none, v.nesting.modifyTop fun f => { f with valueSlot := some (slot + 1) },
      some (slot + 1), settled, 0⟩
  | none => ⟨none, none, v.nesting, none, settled, 0⟩

/-- A semicolon. -/
def semicolon (lines : Nat) : Decision :=
  let query : Decision := ⟨none, none, v.nesting.clear, none, some 0, lines⟩
  if 0 < v.nesting.proceduralDepth then
    match v.nesting.toProcedural? with
    | some block =>
      ⟨none, none, block.modifyTop fun f => { f with clause := none, headerEnd := none }, none,
        block.top?.map (·.base), 0⟩
    | none => query
  else query

/-- An opening bracket with a group of this width. -/
def bracket (alignValues : Bool) (key : String) (width : Option Nat) : Decision :=
  let inline := v.nesting.inInline || Groups.fitsIn width v.room
  let tuple := inline && alignValues && !v.nesting.inInline && v.nesting.clause == some .values
  let slot := if tuple then some 0 else none
  ⟨none, none, v.nesting.push (frameAt .paren key v.indent inline none slot), slot,
    if inline then none else some (v.indent + 1), 0⟩

/-- The opener of an expression. -/
def expression (context : BlockContext) (key : String) : Decision :=
  ⟨none, none, v.nesting.push (frameAt context key v.indent v.nesting.inInline none none), none,
    none, 0⟩

/-- The `BEGIN` after the declarations of a block. -/
def declared (frame : Frame) (key : String) : Decision :=
  ⟨some frame.outer, none, v.nesting.modifyTop fun f => { f with key := key, clause := none }, none,
    some frame.base, 0⟩

/-- The opener of a procedural block of its own. -/
def block (key : String) (headerEnd : Option String) : Decision :=
  let placed := if key == "begin" || key == "declare" then some v.nesting.base else none
  let outer := placed.getD v.indent
  ⟨placed, none, v.nesting.push (frameAt .procedural key outer false headerEnd none), none,
    if headerEnd.isNone then some (outer + 1) else none, 0⟩

/-- An opener of a procedural block. -/
def procedural (key : String) (headerEnd : Option String) : Decision :=
  match v.nesting.topProcedural? with
  | some frame =>
    if key == "begin" && frame.key == "declare" then v.declared frame key
    else v.block key headerEnd
  | none => v.block key headerEnd

/-- An opener. -/
def opener (ctx : Context) (item : Item) : Decision :=
  if v.nesting.isFull then
    { v.content with nesting := { v.nesting with overflow := v.nesting.overflow + 1 } }
  else if item.token.isBracket then
    v.bracket ctx.style.alignValues item.token.text item.inlineWidth
  else
    match ctx.dialect.lexicon.opener? item.token.keyText with
    | none => v.content
    | some opener =>
      if opener.context == .procedural then v.procedural item.token.keyText opener.headerEnd
      else v.expression opener.context item.token.keyText

/-- A closer. -/
def closer (lexicon : Lexicon) (token : Token) : Decision :=
  if 0 < v.nesting.overflow then
    { v.content with nesting := { v.nesting with overflow := v.nesting.overflow - 1 } }
  else
    match v.nesting.close? fun f => lexicon.closes (State.closerKey token) f.key with
    | none => v.content
    | some (frame, nesting) =>
      ⟨if frame.inline then none else some frame.outer, none, nesting, none, none, 0⟩

/-- The token ends the header of the innermost block. -/
def endsHeader (token : Token) : Bool :=
  (v.nesting.top?.bind (·.headerEnd)).any (token.keyText == ·)

/-- What layout decides for a token other than a comment. -/
def decision (ctx : Context) (item : Item) : Decision :=
  match item.token.kind with
  | .reservedTopLevel => v.clause (some (.ofKey item.token.keyText))
  | .reservedTopLevelNoIndent => v.clause none
  | .reservedNewline => v.keyword ctx.dialect.lexicon item.token.keyText
  | .openParen => v.opener ctx item
  | .closeParen => v.closer ctx.dialect.lexicon item.token
  | .operator =>
    if item.token.text == ";" then v.semicolon ctx.style.linesBetweenQueries
    else if item.token.text == "," then v.comma
    else v.content
  | .reserved => if v.endsHeader item.token then v.headerEnd else v.content
  | _ => v.content

/-- Of the context a decision depends on the dialect and two settings, and of the item on the token and
the width of its group. -/
theorem decision_congr {ctx ctx' : Context} {item item' : Item} (hdialect : ctx'.dialect = ctx.dialect)
    (hvalues : ctx'.style.alignValues = ctx.style.alignValues)
    (hlines : ctx'.style.linesBetweenQueries = ctx.style.linesBetweenQueries)
    (htoken : item'.token = item.token) (hwidth : item'.inlineWidth = item.inlineWidth) :
    v.decision ctx' item' = v.decision ctx item := by
  unfold decision opener
  rw [hdialect, hvalues, hlines, htoken, hwidth]

/-- A token that is put on a line of its own is so whatever line it would be on otherwise: the line has a
say in where brackets and blocks stand, and in the anchor of content. -/
theorem decision_of_placed {ctx : Context} {item : Item} {w : Sight} (hnesting : w.nesting = v.nesting)
    (hbetween : w.between = v.between) (h : (v.decision ctx item).placed.isSome = true) :
    w.decision ctx item = v.decision ctx item := by
  obtain ⟨nesting, between, indent, room, anchor⟩ := v
  obtain ⟨_, _, indent', room', anchor'⟩ := w
  obtain rfl := hnesting
  obtain rfl := hbetween
  revert h
  unfold decision
  cases item.token.kind with
  | reservedTopLevel | reservedTopLevelNoIndent =>
    unfold clause content keepsLine
    split_ifs <;> simp
  | reservedNewline =>
    simp only [keyword, content, keepsLine]
    repeat' split
    all_goals simp [line, division]
  | openParen =>
    simp only [opener, procedural, block]
    repeat' split
    all_goals simp [content, bracket, expression, declared]
  | closeParen =>
    simp only [closer]
    repeat' split
    all_goals simp [content]
  | operator =>
    simp only [semicolon, comma]
    repeat' split
    all_goals simp [content]
  | reserved =>
    unfold headerEnd endsHeader
    split_ifs <;> simp [content]
  | _ => simp [content]

/-- A value comes next only behind a comma or an opening bracket. -/
theorem decision_value {ctx : Context} {item : Item} (h : (v.decision ctx item).value.isSome = true) :
    item.token.isOperator "," = true ∨ isOpeningBracket item.token = true := by
  revert h
  unfold decision
  cases hkind : item.token.kind with
  | operator =>
    simp only
    split_ifs with hsemicolon hcomma
    · simp only [semicolon]
      repeat' split
      all_goals simp
    · exact fun _ => .inl (by simpa [Token.isOperator, hkind] using hcomma)
    · simp [content]
  | openParen =>
    simp only [opener, procedural]
    repeat' split
    all_goals simp_all [isOpeningBracket, content, expression, declared, block]
  | reservedTopLevel | reservedTopLevelNoIndent =>
    simp only [clause]
    split_ifs <;> simp [content]
  | reservedNewline =>
    simp only [keyword, division]
    repeat' split
    all_goals simp [content, line]
  | closeParen =>
    simp only [closer]
    repeat' split
    all_goals simp [content]
  | reserved =>
    simp only [headerEnd]
    split <;> simp [content]
  | _ => simp [content]

/-- Content is all that an anchor is asked for. -/
theorem decision_anchor {ctx : Context} {item : Item} (h : v.anchor = none) :
    (v.decision ctx item).anchor = none := by
  unfold decision
  cases item.token.kind with
  | reservedTopLevel | reservedTopLevelNoIndent =>
    simp only [clause, content, h]
    split_ifs <;> rfl
  | reservedNewline =>
    simp only [keyword, division, content, line, h]
    repeat' split
    all_goals rfl
  | openParen =>
    simp only [opener, procedural, content, bracket, expression, declared, block, h]
    repeat' split
    all_goals rfl
  | closeParen =>
    simp only [closer, content, h]
    repeat' split
    all_goals rfl
  | operator =>
    simp only [semicolon, comma, content, h]
    repeat' split
    all_goals rfl
  | reserved =>
    simp only [headerEnd, content, h]
    split <;> rfl
  | _ => exact h

/-- A `BETWEEN` waits for its `AND` after a token. Whatever starts a clause gives up the wait. -/
def betweenAfter (token : Token) : Bool :=
  match token.kind with
  | .reservedTopLevel | .reservedTopLevelNoIndent => v.keepsLine && v.between
  | .reservedNewline => v.between && !(token.keyText == "and")
  | .operator => v.between && !(token.text == ";")
  | .reserved =>
    v.between ||
      (!v.endsHeader token && (token.keyText == "between" || token.keyText == "not between"))
  | _ => v.between

end Sight

/-! ## Every rule decides so -/

namespace State

variable {ctx : Context} {s : State} {item : Item}

theorem content_eq (ctx : Context) (s : State) (item : Item) :
    s.content ctx item = s.decided ctx item (s.sight ctx item.token).content
      (s.between || (item.token.kind == .reserved &&
        (item.token.keyText == "between" || item.token.keyText == "not between"))) := by
  rw [content, emit_eq]
  rfl

/-- A token that is no `BETWEEN` leaves the wait for its `AND` as it is. -/
theorem content_eq_of_ne (hkind : item.token.kind ≠ .reserved) :
    s.content ctx item = s.decided ctx item (s.sight ctx item.token).content s.between := by
  rw [content_eq, beq_false_of_ne hkind, Bool.false_and, Bool.or_false]

theorem topLevel_eq (hkind : item.token.kind = .reservedTopLevel) :
    s.topLevel ctx item = s.decided ctx item
      ((s.sight ctx item.token).clause (some (.ofKey item.token.keyText)))
      ((s.sight ctx item.token).keepsLine && s.between) := by
  unfold topLevel Sight.clause
  change (if s.keepsLine then _ else _) = s.decided ctx item (if s.keepsLine then _ else _)
    (s.keepsLine && _)
  cases hkeeps : s.keepsLine with
  | true => exact content_eq_of_ne (by simp [hkind])
  | false =>
    simp only [State.newline, emit_eq, Page.newline_eq_settle _ (s.nesting.base + 1)]
    rfl

theorem topLevelNoIndent_eq (hkind : item.token.kind = .reservedTopLevelNoIndent) :
    s.topLevelNoIndent ctx item = s.decided ctx item ((s.sight ctx item.token).clause none)
      ((s.sight ctx item.token).keepsLine && s.between) := by
  unfold topLevelNoIndent Sight.clause
  change (if s.keepsLine then _ else _) = s.decided ctx item (if s.keepsLine then _ else _)
    (s.keepsLine && _)
  cases hkeeps : s.keepsLine with
  | true => exact content_eq_of_ne (by simp [hkind])
  | false =>
    simp only [State.newline, emit_eq]
    rw [Bool.false_and]
    simp only [Bool.false_eq_true, if_false]
    rw [Page.newline_eq_settle (State.written ..)]
    rfl

theorem blockSection_eq (frame : Frame) (key : String) :
    s.blockSection ctx frame item key =
      s.decided ctx item ((s.sight ctx item.token).division frame key) s.between := by
  unfold blockSection Sight.division
  cases key == "elsif" || key == "elseif" with
  | true =>
    simp only [emit_eq, if_true]
    rfl
  | false =>
    simp only [State.newline, emit_eq, Bool.false_eq_true, if_false]
    rw [Page.newline_eq_settle (State.written ..)]
    rfl

theorem newlineKeyword_eq (hkind : item.token.kind = .reservedNewline) :
    s.newlineKeyword ctx item = s.decided ctx item
      ((s.sight ctx item.token).keyword ctx.dialect.lexicon item.token.keyText)
      (s.between && !(item.token.keyText == "and")) := by
  have hcontent : ∀ between, { s with between := between }.content ctx item =
      s.decided ctx item (s.sight ctx item.token).content between :=
    fun between => content_eq_of_ne (by simp [hkind])
  have hline : ∀ placed, (s.newline placed).emit ctx item =
      s.decided ctx item ((s.sight ctx item.token).line placed) s.between := by
    intro placed
    rw [emit_eq]
    rfl
  unfold newlineKeyword Sight.keyword
  change (if _ && s.between then _ else if s.keepsLine then _ else _) =
    s.decided ctx item (if _ && s.between then _ else if s.keepsLine then _ else _) _
  by_cases hand : (item.token.keyText == "and" && s.between) = true
  · rw [if_pos hand, if_pos hand, hcontent]
    rw [Bool.and_eq_true] at hand
    simp [hand.1]
  · have hbetween : (s.between && !(item.token.keyText == "and")) = s.between := by
      cases hb : s.between <;> simp_all
    rw [if_neg hand, if_neg hand, hbetween]
    by_cases hkeeps : s.keepsLine = true
    · rw [if_pos hkeeps, if_pos hkeeps]
      exact hcontent s.between
    · rw [if_neg hkeeps, if_neg hkeeps]
      change (match s.nesting.topProcedural? with | some frame => _ | none => _) =
        s.decided ctx item (match s.nesting.topProcedural? with | some frame => _ | none => _) _
      cases s.nesting.topProcedural? with
      | none => exact hline s.nesting.depth
      | some frame =>
        by_cases hsection : ctx.dialect.lexicon.isBlockSection item.token.keyText = true
        · simp only [hsection, if_true]
          exact blockSection_eq frame _
        · by_cases huntil : (item.token.keyText == "until") = true
          · simp only [hsection, huntil, if_true]
            exact hline frame.outer
          · simp only [hsection, huntil]
            exact hline s.nesting.depth

theorem headerEnd_eq :
    s.headerEnd ctx item =
      s.decided ctx item (s.sight ctx item.token).headerEnd s.between := by
  unfold headerEnd Sight.headerEnd
  rw [emit_eq]
  simp only [sight]
  cases hframe : s.nesting.top? with
  | none =>
    have hstack : s.nesting.stack = [] := List.head?_eq_none_iff.mp hframe
    simp only [Nesting.modifyTop, hstack]
    rfl
  | some frame =>
    simp only [State.newline, Page.newline_eq_settle]
    rfl

theorem comma_eq :
    s.comma ctx item = s.decided ctx item (s.sight ctx item.token).comma s.between := by
  unfold comma Sight.comma
  rw [emit_eq]
  unfold nextValue
  simp only [sight, Sight.keepsLine]
  cases s.nesting.top?.bind (·.valueSlot) with
  | none =>
    simp only [keepsLine, State.newline, Page.newline_eq_settle]
    by_cases hquiet :
      (s.nesting.inInline || s.nesting.inHeader || s.nesting.clause == some .limit) = true
    · simp only [hquiet, if_true]
      rfl
    · simp only [hquiet]
      rfl
  | some slot =>
    obtain ⟨hinline, hheader, hdepth⟩ := s.nesting.modifyTop_value (some (slot + 1))
    have hclause : (s.nesting.modifyTop fun f => { f with valueSlot := some (slot + 1) }).clause =
        s.nesting.clause := by
      obtain ⟨stack, root, procedural, overflow⟩ := s.nesting
      cases stack <;> rfl
    simp only [keepsLine, State.newline, Page.newline_eq_settle, hinline, hheader, hdepth, hclause]
    by_cases hquiet :
      (s.nesting.inInline || s.nesting.inHeader || s.nesting.clause == some .limit) = true
    · simp only [hquiet, if_true]
      rfl
    · simp only [hquiet]
      rfl

theorem semicolon_eq :
    s.semicolon ctx item = s.decided ctx item
      ((s.sight ctx item.token).semicolon ctx.style.linesBetweenQueries) false := by
  have hquery : s.querySemicolon ctx item = s.decided ctx item
      ⟨none, none, s.nesting.clear, none, some 0, ctx.style.linesBetweenQueries⟩ false := by
    rw [querySemicolon, emit_eq]
    rfl
  unfold semicolon Sight.semicolon
  simp only [sight]
  by_cases hdepth : 0 < s.nesting.proceduralDepth
  · simp only [hdepth, if_true]
    cases hblock : s.nesting.toProcedural? with
    | none => exact hquery
    | some block =>
      obtain ⟨-, f, rest, -, -, -, -, hstack⟩ := Nesting.toProcedural?_eq_some hblock
      have hframe : block.top? = some f := Nesting.top?_eq_some.mpr ⟨rest, hstack⟩
      simp only [blockSemicolon, emit_eq, hframe, State.newline, Page.newline_eq_settle]
      rfl
  · simp only [hdepth, if_false]
    exact hquery

theorem openBracket_eq :
    s.openBracket ctx item = s.decided ctx item
      ((s.sight ctx item.token).bracket ctx.style.alignValues item.token.text item.inlineWidth)
      s.between := by
  rw [openBracket, emit_eq]
  simp only [pageIndent_written, Option.getD_none, Sight.bracket, sight]
  by_cases hinline : (s.nesting.inInline || Groups.fitsIn item.inlineWidth (s.available ctx)) = true
  · simp only [hinline, if_true, Bool.true_and]
    by_cases htuple : (ctx.style.alignValues && !s.nesting.inInline &&
        s.nesting.clause == some .values) = true
    · simp only [htuple, if_true]
      rfl
    · simp only [htuple]
      rfl
  · rw [Bool.not_eq_true] at hinline
    simp only [hinline, Bool.false_and, Bool.false_eq_true, if_false, State.newline,
      Page.newline_eq_settle]
    rfl

theorem openExpression_eq (opener : Opener) :
    s.openExpression ctx item opener = s.decided ctx item
      ((s.sight ctx item.token).expression opener.context item.token.keyText) s.between := by
  rw [openExpression, emit_eq]
  simp only [pageIndent_written, Option.getD_none]
  rfl

theorem openBlock_eq (opener : Opener) :
    s.openBlock ctx item opener = s.decided ctx item
      ((s.sight ctx item.token).block item.token.keyText opener.headerEnd) s.between := by
  have hplace : ∀ own : Bool, (if own then s.newline s.nesting.base else s) =
      { s with page := s.page.place (if own then some s.nesting.base else none) } := by
    rintro (_ | _) <;> rfl
  have hwritten : ∀ placed, { s with page := s.page.place placed }.written ctx item none
      s.pendingAnchor = s.written ctx item placed s.pendingAnchor := fun _ => rfl
  unfold openBlock Sight.block
  simp only [hplace, emit_eq, hwritten, pageIndent_written, sight]
  generalize (if item.token.keyText == "begin" || item.token.keyText == "declare" then
    some s.nesting.base else none) = placed
  cases opener.headerEnd with
  | none =>
    simp only [Option.isNone_none, if_true, State.newline, Page.newline_eq_settle]
    rfl
  | some key => rfl

theorem openProcedural_eq (opener : Opener) :
    s.openProcedural ctx item opener = s.decided ctx item
      ((s.sight ctx item.token).procedural item.token.keyText opener.headerEnd) s.between := by
  unfold openProcedural Sight.procedural
  simp only [sight]
  cases s.nesting.topProcedural? with
  | none => exact openBlock_eq opener
  | some frame =>
    simp only
    cases item.token.keyText == "begin" && frame.key == "declare" with
    | true =>
      simp only [if_true]
      rw [continueDeclare, emit_eq]
      simp only [State.newline]
      rw [Page.newline_eq_settle (State.written ..)]
      rfl
    | false => exact openBlock_eq opener

theorem openGroup_eq (hkind : item.token.kind = .openParen) :
    s.openGroup ctx item = s.decided ctx item
      ((s.sight ctx item.token).opener ctx item) s.between := by
  have hne : item.token.kind ≠ .reserved := by simp [hkind]
  unfold openGroup Sight.opener
  change (if s.nesting.isFull then _ else _) = s.decided ctx item (if s.nesting.isFull then _ else _) _
  cases s.nesting.isFull with
  | true => exact content_eq_of_ne hne
  | false =>
    cases item.token.isBracket with
    | true => exact openBracket_eq
    | false =>
      simp only [Bool.false_eq_true, if_false]
      cases ctx.dialect.lexicon.opener? item.token.keyText with
      | none => exact content_eq_of_ne hne
      | some opener =>
        simp only
        cases opener.context == .procedural with
        | true => exact openProcedural_eq opener
        | false => exact openExpression_eq opener

theorem closeGroup_eq (hkind : item.token.kind = .closeParen) :
    s.closeGroup ctx item = s.decided ctx item
      ((s.sight ctx item.token).closer ctx.dialect.lexicon item.token) s.between := by
  have hne : item.token.kind ≠ .reserved := by simp [hkind]
  unfold closeGroup Sight.closer
  simp only [sight]
  by_cases hover : 0 < s.nesting.overflow
  · simp only [hover, if_true]
    exact content_eq_of_ne hne
  · simp only [hover, if_false]
    cases s.nesting.close? fun f => ctx.dialect.lexicon.closes (closerKey item.token) f.key with
    | none => exact content_eq_of_ne hne
    | some closed =>
      obtain ⟨frame, nesting⟩ := closed
      simp only
      cases frame.inline with
      | true => exact emit_eq ..
      | false => exact emit_eq ..

/-- **Layout decides by what it sees**: the state after a token other than a comment is the one that the
decision for what is seen leads to. -/
theorem significant_eq (ctx : Context) (s : State) (item : Item) :
    s.significant ctx item = s.decided ctx item ((s.sight ctx item.token).decision ctx item)
      ((s.sight ctx item.token).betweenAfter item.token) := by
  unfold significant Sight.decision Sight.betweenAfter
  cases hkind : item.token.kind with
  | reservedTopLevel => exact topLevel_eq hkind
  | reservedTopLevelNoIndent => exact topLevelNoIndent_eq hkind
  | reservedNewline => exact newlineKeyword_eq hkind
  | openParen => exact openGroup_eq hkind
  | closeParen => exact closeGroup_eq hkind
  | operator =>
    simp only
    cases item.token.text == ";" with
    | true =>
      rw [Bool.not_true, Bool.and_false]
      exact semicolon_eq
    | false =>
      rw [Bool.not_false, Bool.and_true]
      cases item.token.text == "," with
      | true => exact comma_eq
      | false => exact content_eq_of_ne (by simp [hkind])
  | reserved =>
    simp only
    change (if s.endsHeader item.token then _ else _) =
      s.decided ctx item (if s.endsHeader item.token then _ else _)
        (s.between || (!s.endsHeader item.token && _))
    cases s.endsHeader item.token with
    | true =>
      simp only [if_true, Bool.not_true, Bool.false_and, Bool.or_false]
      exact headerEnd_eq
    | false =>
      simp only [Bool.false_eq_true, if_false, Bool.not_false, Bool.true_and]
      rw [content_eq, hkind]
      rfl
  | _ => exact content_eq_of_ne (by simp [hkind])

/-! ## The outline of a turn

Whatever is decided, the next line may be started, the token is written, and a line may be started
after it. Only the second move depends on the token before and on the spaces of the source.
-/

/-- The first move: the next token may be given a line of its own. -/
structure Placed (s s₁ : State) : Prop where
  prev : s₁.prev = s.prev
  unary : s₁.unary = s.unary
  page : s₁.page = s.page ∨ ∃ indent, s₁.page = s.page.newline indent

/-- The last move: a line may be started, with empty lines before it. -/
structure Settled (s s₁ : State) : Prop where
  unary : s₁.unary = s.unary
  page : s₁.page = s.page ∨
    ∃ indent lines, s₁.page = { s.page with breakAt := some indent, blankLines := lines }

/-- The state from which a token is written: it may have been given a line of its own, and an anchor
may be waiting for it. -/
def placed (ctx : Context) (s : State) (item : Item) : State :=
  let d := (s.sight ctx item.token).decision ctx item
  { s with page := s.page.place d.placed, pendingAnchor := d.anchor.or s.pendingAnchor }

theorem placed_placed (ctx : Context) (s : State) (item : Item) : Placed s (s.placed ctx item) :=
  ⟨rfl, rfl, Page.place_cases _ _⟩

theorem settled_significant (ctx : Context) (s : State) (item : Item) :
    Settled ((s.placed ctx item).emit ctx item) (s.significant ctx item) := by
  rw [significant_eq, emit_eq]
  exact ⟨rfl, Page.settle_cases _ _ _⟩

end State

end SqlFormat.Layout

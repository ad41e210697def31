import SqlFormat.Checked.Groups
import SqlFormat.Checked.Lexer
import SqlFormat.Checked.Nesting
import SqlFormat.Layout.Step

/-!
# Laying out tokens, index by index

The rules of `Layout.State` on tokens that are looked up by their indices. Two tokens are tried for
running together on their bytes; blocks are opened and closed by the operations that may fail.
-/

namespace SqlFormat.Checked

/-- Written without a space, the first token would be read back as another one. -/
def wouldMerge (lexicon : Lexicon) (first second : Token) : Checked Bool :=
  let joined := Bytes.ofString (first.text ++ second.text)
  let length := first.text.utf8ByteSize
  match first.kind with
  | .number => do return (← Scan.number joined) != length
  | .operator => do
    let compound ← Scan.compoundOperator joined
    return Lexer.startsLineComment lexicon joined || joined.startsWith ['/', '*'] ||
      (compound != 0 && compound != length) ||
      (first.text == "." && second.text.toList.head?.any Char.isDigit)
  | _ => return false

namespace State

open SqlFormat.Layout

/-! ## Writing -/

/-- A space stands before a token, because it belongs there or because the token would otherwise
run together with the one before. -/
def spaceBefore (ctx : Context) (s : State) (item : Item) : Checked Bool :=
  match s.prev with
  | none => return false
  | some prev => do
    if s.spaced ctx prev item then return true
    else wouldMerge ctx.dialect.lexicon prev item.token

/-- Write a token. -/
def emit (ctx : Context) (s : State) (item : Item) : Checked State := do
  let placed := { s with page := s.page.advance (← spaceBefore ctx s item) }.dropAnchor
  return { placed.write ctx item.token.kind (State.displayText ctx item.token) with
    unary := s.isUnarySign item.token }

/-- A token without effect on the lines. -/
def content (ctx : Context) (s : State) (item : Item) : Checked State :=
  let token := item.token
  let isBetween :=
    token.kind == .reserved && (token.keyText == "between" || token.keyText == "not between")
  emit ctx { s with
    between := s.between || isBetween
    pendingAnchor := (s.anchorFor? ctx token).or s.pendingAnchor } item

/-! ## Keywords -/

/-- A keyword that starts a clause, whose content goes one level deeper. -/
def topLevel (ctx : Context) (s : State) (item : Item) : Checked State :=
  if s.keepsLine then content ctx s item
  else do
    let base := s.nesting.base
    let written ← emit ctx ({ s with between := false }.newline base) item
    return { written with
      nesting := written.nesting.setClause (some (.ofKey item.token.keyText)) }.newline (base + 1)

/-- A keyword between two queries. -/
def topLevelNoIndent (ctx : Context) (s : State) (item : Item) : Checked State :=
  if s.keepsLine then content ctx s item
  else do
    let base := s.nesting.base
    let written ← emit ctx ({ s with between := false }.newline base) item
    return { written with nesting := written.nesting.setClause none }.newline base

/-- A keyword that starts a new section of a procedural block. `ELSIF` starts a header. -/
def blockSection (ctx : Context) (s : State) (frame : Frame) (item : Item) (key : String) :
    Checked State := do
  let written ← emit ctx (s.newline frame.outer) item
  if key == "elsif" || key == "elseif" then
    return { written with
      nesting := written.nesting.modifyTop fun f =>
        { f with clause := none, headerEnd := some "then" } }
  else
    return { written with
      nesting := written.nesting.modifyTop fun f => { f with clause := none } }.newline frame.base

/-- A keyword that starts a new line. The `AND` of a `BETWEEN` does not. -/
def newlineKeyword (ctx : Context) (s : State) (item : Item) : Checked State :=
  let key := item.token.keyText
  if key == "and" && s.between then content ctx { s with between := false } item
  else if s.keepsLine then content ctx s item
  else
    match s.nesting.topProcedural? with
    | some frame =>
      if ctx.dialect.lexicon.isBlockSection key then blockSection ctx s frame item key
      else if key == "until" then emit ctx (s.newline frame.outer) item
      else emit ctx (s.newline s.nesting.depth) item
    | none => emit ctx (s.newline s.nesting.depth) item

/-- The keyword that ends a header; the body of the block starts on the next line. -/
def headerEnd (ctx : Context) (s : State) (item : Item) : Checked State := do
  let written ← emit ctx s item
  match written.nesting.top? with
  | some frame =>
    return { written with
      nesting := written.nesting.modifyTop fun f => { f with headerEnd := none } }.newline
        frame.base
  | none => return written

/-! ## Separators -/

/-- A comma ends the line, except in a group on one line, in a header and in `LIMIT`. -/
def comma (ctx : Context) (s : State) (item : Item) : Checked State := do
  let written := (← emit ctx s item).nextValue
  if written.keepsLine || written.nesting.clause == some .limit then return written
  else return written.newline written.nesting.depth

/-- A semicolon in a procedural block ends a statement of it. -/
def blockSemicolon (ctx : Context) (s : State) (nesting : Nesting) (item : Item) :
    Checked State := do
  let written ← emit ctx { s with between := false, nesting := nesting } item
  match written.nesting.top? with
  | some frame =>
    return { written with
      nesting := written.nesting.modifyTop fun f =>
        { f with clause := none, headerEnd := none } }.newline frame.base
  | none => return written

/-- A semicolon outside all procedural blocks ends a query and closes whatever is open. -/
def querySemicolon (ctx : Context) (s : State) (item : Item) : Checked State := do
  let nesting ← Nesting.clear s.nesting
  let written ← emit ctx { s with between := false, nesting := nesting } item
  return { written with page := (written.page.newline 0).blank ctx.style.linesBetweenQueries }

/-- A semicolon. -/
def semicolon (ctx : Context) (s : State) (item : Item) : Checked State :=
  if 0 < s.nesting.proceduralDepth then do
    match ← Nesting.toProcedural? s.nesting with
    | some nesting => blockSemicolon ctx s nesting item
    | none => querySemicolon ctx s item
  else querySemicolon ctx s item

/-! ## Blocks -/

/-- An opening bracket stays on the line with its group if that fits. -/
def openBracket (ctx : Context) (s : State) (item : Item) : Checked State := do
  let inline := s.nesting.inInline || SqlFormat.Groups.fitsIn item.inlineWidth (s.available ctx)
  let tuple := inline && ctx.style.alignValues && !s.nesting.inInline &&
    s.nesting.clause == some .values
  let written ← emit ctx s item
  let outer := written.page.indent
  let nesting ← Nesting.push written.nesting
    { context := .paren, key := item.token.text, outer := outer, base := outer + 1,
      inline := inline, clause := none, headerEnd := none,
      valueSlot := if tuple then some 0 else none }
  let opened :=
    { written with
      nesting := nesting
      pendingAnchor := if tuple then some (.value, 0) else written.pendingAnchor }
  return if inline then opened else opened.newline (outer + 1)

/-- An opener of a `CASE` expression. -/
def openExpression (ctx : Context) (s : State) (item : Item) (opener : Opener) :
    Checked State := do
  let inline := s.nesting.inInline
  let written ← emit ctx s item
  let outer := written.page.indent
  let nesting ← Nesting.push written.nesting
    { context := opener.context, key := item.token.keyText, outer := outer, base := outer + 1,
      inline := inline, clause := none, headerEnd := none, valueSlot := none }
  return { written with nesting := nesting }

/-- The `BEGIN` of a block that `DECLARE` has opened. -/
def continueDeclare (ctx : Context) (s : State) (frame : Frame) (item : Item) :
    Checked State := do
  let renamed :=
    { s with
      nesting := s.nesting.modifyTop fun f =>
        { f with key := item.token.keyText, clause := none } }
  return (← emit ctx (renamed.newline frame.outer) item).newline frame.base

/-- An opener of a procedural block that starts a block of its own. -/
def openBlock (ctx : Context) (s : State) (item : Item) (opener : Opener) : Checked State := do
  let key := item.token.keyText
  let placed :=
    if key == "begin" || key == "declare" then s.newline s.nesting.base else s
  let written ← emit ctx placed item
  let outer := written.page.indent
  let nesting ← Nesting.push written.nesting
    { context := .procedural, key := key, outer := outer, base := outer + 1,
      inline := false, clause := none, headerEnd := opener.headerEnd, valueSlot := none }
  let opened := { written with nesting := nesting }
  return if opener.headerEnd.isNone then opened.newline (outer + 1) else opened

/-- An opener of a procedural block. -/
def openProcedural (ctx : Context) (s : State) (item : Item) (opener : Opener) : Checked State :=
  match s.nesting.topProcedural? with
  | some frame =>
    if item.token.keyText == "begin" && frame.key == "declare" then
      continueDeclare ctx s frame item
    else openBlock ctx s item opener
  | none => openBlock ctx s item opener

/-- An opener. One for which there is no frame is content. -/
def openGroup (ctx : Context) (s : State) (item : Item) : Checked State :=
  if s.nesting.isFull then
    content ctx
      { s with nesting := { s.nesting with overflow := s.nesting.overflow + 1 } } item
  else if item.token.isBracket then openBracket ctx s item
  else
    match ctx.dialect.lexicon.opener? item.token.keyText with
    | none => content ctx s item
    | some opener =>
      if opener.context == .procedural then openProcedural ctx s item opener
      else openExpression ctx s item opener

/-- A closer ends the innermost block that it can close, with all that is open inside it. One that
closes nothing is content. -/
def closeGroup (ctx : Context) (s : State) (item : Item) : Checked State :=
  if 0 < s.nesting.overflow then do
    let overflow ← minus s.nesting.overflow 1
    content ctx { s with nesting := { s.nesting with overflow := overflow } } item
  else do
    let closes := fun f : Frame =>
      ctx.dialect.lexicon.closes (State.closerKey item.token) f.key
    match ← Nesting.close? s.nesting closes with
    | none => content ctx s item
    | some (frame, nesting) =>
      let closed := { s with nesting := nesting }
      emit ctx (if frame.inline then closed else closed.newline frame.outer) item

/-! ## The step -/

/-- Lay out a token that is not a comment. -/
def significant (ctx : Context) (s : State) (item : Item) : Checked State :=
  match item.token.kind with
  | .reservedTopLevel => topLevel ctx s item
  | .reservedTopLevelNoIndent => topLevelNoIndent ctx s item
  | .reservedNewline => newlineKeyword ctx s item
  | .openParen => openGroup ctx s item
  | .closeParen => closeGroup ctx s item
  | .operator =>
    if item.token.text == ";" then semicolon ctx s item
    else if item.token.text == "," then comma ctx s item
    else content ctx s item
  | .reserved =>
    if s.endsHeader item.token then headerEnd ctx s item else content ctx s item
  | _ => content ctx s item

end State

/-! ## The items -/

namespace Item

open SqlFormat.Layout

/-- What stands before the token with index `i`. -/
def before (tokens : Array Token) (i : Nat) : Checked Item.Before :=
  if i = 0 then return .nothing
  else do
    let t ← element tokens (i - 1)
    return if i = 1 then .first t else .later t

/-- The items of the tokens from index `i` on, without the widths of groups. -/
def gather (tokens : Array Token) (i : Nat) : List Token → Checked (List Item)
  | [] => return []
  | t :: ts => do
    let item := Item.ofNeighbours (← before tokens i) t tokens[i + 1]?
    let rest ← gather tokens (i + 1) ts
    return if t.kind == .whitespace then rest else item :: rest

/-- Note the widths of the groups, the first item having index `i`. -/
def measure (groups : Groups) (i : Nat) : List Item → Checked (List Item)
  | [] => return []
  | item :: items => do
    return { item with inlineWidth := ← Groups.inlineWidth? groups i } ::
      (← measure groups (i + 1) items)

/-- The items of a token sequence. -/
def ofTokens (tokens : Array Token) : Checked (Array Item) := do
  let items ← gather tokens 0 tokens.toList
  let groups ← Groups.ofTokens (items.map (·.token)).toArray
  return (← measure groups 0 items).toArray

end Item

/-! ## The run -/

namespace Run

open SqlFormat.Layout

/-- The state between two items, and the index of the last one that was not a comment. -/
structure Progress where
  state : State
  prev : Option Nat

/-- Nothing has been laid out. -/
def Progress.start : Progress := ⟨.start, none⟩

/-- Lay out the item with index `i`. -/
def step (ctx : Context) (items : Array Item) (progress : Progress) (i : Nat) (item : Item) :
    Checked Progress := do
  let prev ← progress.prev.mapM (element items)
  let s := { progress.state with prev := prev.map (·.token) }
  if item.token.kind.isComment then return ⟨s.comment ctx item, progress.prev⟩
  else return ⟨← State.significant ctx s item, some i⟩

/-- Lay out items of which the first has index `i`. -/
def run (ctx : Context) (items : Array Item) (progress : Progress) (i : Nat) :
    List Item → Checked Progress
  | [] => return progress
  | item :: rest => do run ctx items (← step ctx items progress i item) (i + 1) rest

end Run

open SqlFormat.Layout in
/-- The lines of a token sequence, before alignment. -/
def linesOf (ctx : Context) (tokens : Array Token) : Checked (List Line) := do
  let items ← Item.ofTokens tokens
  return (← Run.run ctx items .start 0 items.toList).state.page.lines

end SqlFormat.Checked

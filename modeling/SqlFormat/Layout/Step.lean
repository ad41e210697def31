import SqlFormat.Layout.Item
import SqlFormat.Layout.Nesting
import SqlFormat.Layout.Page
import SqlFormat.Token.Merge

/-!
# Laying out one token

Layout reads the tokens from left to right. Clause keywords stand on lines of their own with their
content indented below them; joins and connectives start new lines; commas end lines; blocks indent
what they hold, unless they are bracket groups that fit on the line. The state between two tokens is
a `State`, and `step` is the only function that goes from one to the next.
-/

namespace SqlFormat.Layout

open Text

/-- What stays the same for a whole text. -/
structure Context where
  style : Style
  dialect : Dialect
  /-- What is written for the text of a token of a kind: the text itself, or the text in colour. -/
  decorate : TokenKind → String → String

/-- The case of keywords, once the dialect has been asked. -/
def Context.keywordCase (ctx : Context) : KeywordCase :=
  match ctx.style.keywordCase with
  | .dialect => ctx.dialect.defaultCase
  | other => other

/-- The state between two tokens. -/
structure State where
  nesting : Nesting
  page : Page
  /-- The last token that was not a comment. -/
  prev : Option Token
  /-- That token was a sign. -/
  unary : Bool
  /-- A `BETWEEN` waits for its `AND`. -/
  between : Bool
  /-- The anchor to be noted before the next token. -/
  pendingAnchor : Option (AnchorKind × Nat)

/-- The state before the first token. -/
def State.start : State := ⟨.start, .start, none, false, false, none⟩

namespace State

/-- Let the next token start a line. -/
def newline (s : State) (indent : Nat) : State :=
  { s with page := s.page.newline indent }

/-! ## Spaces -/

/-- A space belongs between two tokens. Brackets hug what they hold and operators follow the
dialect; an opening bracket stands apart if it did in the source. -/
def spaced (ctx : Context) (s : State) (prev : Token) (item : Item) : Bool :=
  let token := item.token
  if s.unary then false
  else if prev.isBracket && (prev.text == "(" || prev.text == "[") then false
  else if token.isBracket && (token.text == ")" || token.text == "]") then false
  else if token.kind == .operator && !(ctx.dialect.spacing token.text).before then false
  else if prev.kind == .operator && !(ctx.dialect.spacing prev.text).after then false
  else if isOpeningBracket token then
    if token.text == "[" && ctx.dialect.arrayBracketSpace && prev.keyText == "array" then true
    else if prev.kind != .operator then item.apart
    else true
  else true

/-- A space stands before a token, because it belongs there or because the token would otherwise
run together with the one before. -/
def spaceBefore (ctx : Context) (s : State) (item : Item) : Bool :=
  match s.prev with
  | none => false
  | some prev => s.spaced ctx prev item || wouldMerge ctx.dialect.lexicon prev item.token

/-- The token is a sign and no binary operator. -/
def isUnarySign (s : State) (token : Token) : Bool :=
  (token.isOperator "+" || token.isOperator "-") &&
    match s.prev with
    | none => true
    | some prev => prev.kind == .operator || prev.kind == .openParen || prev.kind.isReserved

/-! ## Writing -/

/-- The text of a token as it is written, colour apart. -/
def displayText (ctx : Context) (token : Token) : String :=
  if token.isKeyword then ctx.keywordCase.apply (normalizePhrase token.text) else token.text

/-- The width of the last line of a text. -/
def lastLineWidth (s : String) : Nat :=
  (s.toList.reverse.takeWhile (· != '\n')).length

/-- Write text at the end of the line. -/
def write (ctx : Context) (s : State) (kind : TokenKind) (text : String) : State :=
  { s with page := s.page.write (ctx.decorate kind text) (lastLineWidth text) }

/-- Note the anchor that is waiting. -/
def dropAnchor (s : State) : State :=
  match s.pendingAnchor with
  | some (kind, slot) => { s with page := s.page.anchor kind slot, pendingAnchor := none }
  | none => s

/-- Write a token. -/
def emit (ctx : Context) (s : State) (item : Item) : State :=
  let placed := { s with page := s.page.advance (s.spaceBefore ctx item) }.dropAnchor
  { placed.write ctx item.token.kind (displayText ctx item.token) with
    unary := s.isUnarySign item.token }

/-! ## Content -/

/-- The anchor to be noted before a token, if it is to be lined up with others. -/
def anchorFor? (ctx : Context) (s : State) (token : Token) : Option (AnchorKind × Nat) :=
  let n := s.nesting
  if token.kind == .reserved then
    if token.keyText == "as" && ctx.style.alignColumns && n.clause == some .select &&
        !n.inInline && !s.page.lineHas .alias then
      some (.alias, 0)
    else none
  else if ctx.style.alignAssignments && !n.inInline && !s.page.lineHas .assign &&
      ((token.isOperator "=" && n.clause == some .set) ||
        (token.isOperator ":=" && n.topProcedural?.isSome)) then
    some (.assign, 0)
  else none

/-- A token without effect on the lines. -/
def content (ctx : Context) (s : State) (item : Item) : State :=
  let token := item.token
  let isBetween :=
    token.kind == .reserved && (token.keyText == "between" || token.keyText == "not between")
  { s with
    between := s.between || isBetween
    pendingAnchor := (s.anchorFor? ctx token).or s.pendingAnchor }.emit ctx item

/-! ## Keywords -/

/-- A token in a group on one line, or in the header of a block, starts no line. -/
def keepsLine (s : State) : Bool :=
  s.nesting.inInline || s.nesting.inHeader

/-- A keyword that starts a clause, whose content goes one level deeper. -/
def topLevel (ctx : Context) (s : State) (item : Item) : State :=
  if s.keepsLine then s.content ctx item
  else
    let base := s.nesting.base
    let written := ({ s with between := false }.newline base).emit ctx item
    { written with
      nesting := written.nesting.setClause (some (.ofKey item.token.keyText)) }.newline (base + 1)

/-- A keyword between two queries. -/
def topLevelNoIndent (ctx : Context) (s : State) (item : Item) : State :=
  if s.keepsLine then s.content ctx item
  else
    let base := s.nesting.base
    let written := ({ s with between := false }.newline base).emit ctx item
    { written with nesting := written.nesting.setClause none }.newline base

/-- A keyword that starts a new section of a procedural block. `ELSIF` starts a header. -/
def blockSection (ctx : Context) (s : State) (frame : Frame) (item : Item) (key : String) : State :=
  let written := (s.newline frame.outer).emit ctx item
  if key == "elsif" || key == "elseif" then
    { written with
      nesting := written.nesting.modifyTop fun f =>
        { f with clause := none, headerEnd := some "then" } }
  else
    { written with nesting := written.nesting.modifyTop fun f => { f with clause := none } }.newline
      frame.base

/-- A keyword that starts a new line. The `AND` of a `BETWEEN` does not. -/
def newlineKeyword (ctx : Context) (s : State) (item : Item) : State :=
  let key := item.token.keyText
  if key == "and" && s.between then { s with between := false }.content ctx item
  else if s.keepsLine then s.content ctx item
  else
    let plain := (s.newline s.nesting.depth).emit ctx item
    match s.nesting.topProcedural? with
    | some frame =>
      if ctx.dialect.lexicon.isBlockSection key then s.blockSection ctx frame item key
      else if key == "until" then (s.newline frame.outer).emit ctx item
      else plain
    | none => plain

/-- The token ends the header of the innermost block. -/
def endsHeader (s : State) (token : Token) : Bool :=
  (s.nesting.top?.bind (·.headerEnd)).any (token.keyText == ·)

/-- The keyword that ends a header; the body of the block starts on the next line. -/
def headerEnd (ctx : Context) (s : State) (item : Item) : State :=
  let written := s.emit ctx item
  match written.nesting.top? with
  | some frame =>
    { written with
      nesting := written.nesting.modifyTop fun f => { f with headerEnd := none } }.newline
        frame.base
  | none => written

/-! ## Separators -/

/-- Count the value that a comma ends, in a tuple whose values are lined up. -/
def nextValue (s : State) : State :=
  match s.nesting.top?.bind (·.valueSlot) with
  | some slot =>
    { s with
      nesting := s.nesting.modifyTop fun f => { f with valueSlot := some (slot + 1) }
      pendingAnchor := some (.value, slot + 1) }
  | none => s

/-- A comma ends the line, except in a group on one line, in a header and in `LIMIT`. -/
def comma (ctx : Context) (s : State) (item : Item) : State :=
  let written := (s.emit ctx item).nextValue
  if written.keepsLine || written.nesting.clause == some .limit then written
  else written.newline written.nesting.depth

/-- A semicolon in a procedural block ends a statement of it. -/
def blockSemicolon (ctx : Context) (s : State) (nesting : Nesting) (item : Item) : State :=
  let written := { s with between := false, nesting := nesting }.emit ctx item
  match written.nesting.top? with
  | some frame =>
    { written with
      nesting := written.nesting.modifyTop fun f =>
        { f with clause := none, headerEnd := none } }.newline frame.base
  | none => written

/-- A semicolon outside all procedural blocks ends a query and closes whatever is open. -/
def querySemicolon (ctx : Context) (s : State) (item : Item) : State :=
  let written := { s with between := false, nesting := s.nesting.clear }.emit ctx item
  { written with page := (written.page.newline 0).blank ctx.style.linesBetweenQueries }

/-- A semicolon. -/
def semicolon (ctx : Context) (s : State) (item : Item) : State :=
  if 0 < s.nesting.proceduralDepth then
    match s.nesting.toProcedural? with
    | some nesting => s.blockSemicolon ctx nesting item
    | none => s.querySemicolon ctx item
  else s.querySemicolon ctx item

/-! ## Blocks -/

/-- The room on the line for a bracket group, if lines are limited. -/
def available (ctx : Context) (s : State) : Option Nat :=
  if ctx.style.maxLineLength = 0 then none
  else
    let space := (!s.page.atLineStart).toNat
    some (ctx.style.maxLineLength - (s.page.column ctx.style.indentWidth + space))

/-- An opening bracket stays on the line with its group if that fits. -/
def openBracket (ctx : Context) (s : State) (item : Item) : State :=
  let inline := s.nesting.inInline || Groups.fitsIn item.inlineWidth (s.available ctx)
  let tuple := inline && ctx.style.alignValues && !s.nesting.inInline &&
    s.nesting.clause == some .values
  let written := s.emit ctx item
  let outer := written.page.indent
  let opened :=
    { written with
      nesting := written.nesting.push
        { context := .paren, key := item.token.text, outer := outer, base := outer + 1,
          inline := inline, clause := none, headerEnd := none,
          valueSlot := if tuple then some 0 else none }
      pendingAnchor := if tuple then some (.value, 0) else written.pendingAnchor }
  if inline then opened else opened.newline (outer + 1)

/-- An opener of a `CASE` expression. -/
def openExpression (ctx : Context) (s : State) (item : Item) (opener : Opener) : State :=
  let inline := s.nesting.inInline
  let written := s.emit ctx item
  let outer := written.page.indent
  { written with
    nesting := written.nesting.push
      { context := opener.context, key := item.token.keyText, outer := outer, base := outer + 1,
        inline := inline, clause := none, headerEnd := none, valueSlot := none } }

/-- The `BEGIN` of a block that `DECLARE` has opened. -/
def continueDeclare (ctx : Context) (s : State) (frame : Frame) (item : Item) : State :=
  let renamed :=
    { s with
      nesting := s.nesting.modifyTop fun f =>
        { f with key := item.token.keyText, clause := none } }
  ((renamed.newline frame.outer).emit ctx item).newline frame.base

/-- An opener of a procedural block that starts a block of its own. -/
def openBlock (ctx : Context) (s : State) (item : Item) (opener : Opener) : State :=
  let key := item.token.keyText
  let placed :=
    if key == "begin" || key == "declare" then s.newline s.nesting.base else s
  let written := placed.emit ctx item
  let outer := written.page.indent
  let opened :=
    { written with
      nesting := written.nesting.push
        { context := .procedural, key := key, outer := outer, base := outer + 1,
          inline := false, clause := none, headerEnd := opener.headerEnd, valueSlot := none } }
  if opener.headerEnd.isNone then opened.newline (outer + 1) else opened

/-- An opener of a procedural block. -/
def openProcedural (ctx : Context) (s : State) (item : Item) (opener : Opener) : State :=
  match s.nesting.topProcedural? with
  | some frame =>
    if item.token.keyText == "begin" && frame.key == "declare" then
      s.continueDeclare ctx frame item
    else s.openBlock ctx item opener
  | none => s.openBlock ctx item opener

/-- An opener. One for which there is no frame is content. -/
def openGroup (ctx : Context) (s : State) (item : Item) : State :=
  if s.nesting.isFull then
    { s with nesting := { s.nesting with overflow := s.nesting.overflow + 1 } }.content ctx item
  else if item.token.isBracket then s.openBracket ctx item
  else
    match ctx.dialect.lexicon.opener? item.token.keyText with
    | none => s.content ctx item
    | some opener =>
      if opener.context == .procedural then s.openProcedural ctx item opener
      else s.openExpression ctx item opener

/-- The key by which a closer is compared with openers. -/
def closerKey (token : Token) : String :=
  if token.isBracket then token.text else token.keyText

/-- A closer ends the innermost block that it can close, with all that is open inside it. One that
closes nothing is content. -/
def closeGroup (ctx : Context) (s : State) (item : Item) : State :=
  if 0 < s.nesting.overflow then
    { s with nesting := { s.nesting with overflow := s.nesting.overflow - 1 } }.content ctx item
  else
    match s.nesting.close? fun f => ctx.dialect.lexicon.closes (closerKey item.token) f.key with
    | none => s.content ctx item
    | some (frame, nesting) =>
      let closed := { s with nesting := nesting }
      (if frame.inline then closed else closed.newline frame.outer).emit ctx item

/-! ## Comments -/

/-- A block comment with its lines indented like the line that it starts on. -/
def reindent (unit : String) (indent : Nat) (text : String) : String :=
  let margin := String.join (List.replicate indent unit)
  match splitOn '\n' text.toList with
  | [] => ""
  | first :: rest =>
    trimEnd (String.ofList first) ++
      String.join (rest.map fun line =>
        let bare := trim (String.ofList line)
        if bare.isEmpty then "\n" else "\n" ++ margin ++ " " ++ bare)

/-- The text of a comment as it is written on a line with this indentation. -/
def commentText (ctx : Context) (token : Token) (indent : Nat) : String :=
  if token.kind == .lineComment then trimEnd token.text
  else if ctx.style.preserveCommentIndent then token.text
  else reindent ctx.style.indent indent token.text

/-- A comment that stood on the line of what is before it stays there, even if a new line is about to
start. -/
def comment (ctx : Context) (s : State) (item : Item) : State :=
  let attached := !item.startsLine && s.page.atLineStart && !s.page.line.text.isEmpty
  let placed :=
    if attached then { s with page := s.page.write " " 1 }
    else
      let broken :=
        if item.startsLine && !s.page.atLineStart then s.newline s.nesting.depth else s
      { broken with page := broken.page.advance true }
  let written := placed.write ctx item.token.kind
    (commentText ctx item.token placed.page.line.indent)
  if item.endsLine && written.page.breakAt.isNone then written.newline written.nesting.depth
  else written

/-! ## The step -/

/-- Lay out a token that is not a comment. -/
def significant (ctx : Context) (s : State) (item : Item) : State :=
  match item.token.kind with
  | .reservedTopLevel => s.topLevel ctx item
  | .reservedTopLevelNoIndent => s.topLevelNoIndent ctx item
  | .reservedNewline => s.newlineKeyword ctx item
  | .openParen => s.openGroup ctx item
  | .closeParen => s.closeGroup ctx item
  | .operator =>
    if item.token.text == ";" then s.semicolon ctx item
    else if item.token.text == "," then s.comma ctx item
    else s.content ctx item
  | .reserved =>
    if s.endsHeader item.token then s.headerEnd ctx item else s.content ctx item
  | _ => s.content ctx item

/-- Lay out one token. -/
def step (ctx : Context) (s : State) (item : Item) : State :=
  if item.token.kind.isComment then s.comment ctx item
  else { s.significant ctx item with prev := some item.token }

/-- Lay out a sequence of tokens. -/
def run (ctx : Context) (s : State) (items : List Item) : State :=
  items.foldl (step ctx) s

end State

end SqlFormat.Layout

import SqlFormat.Groups

/-!
# Items

Layout works on the tokens other than white space. Of the white space in the source it needs to know
three things only, which are noted on the tokens that they matter for: whether an opening bracket
stood apart from what is before it, whether a comment stood first on its line, and whether it ended
its line. The width of a bracket group is noted on its opening bracket.
-/

namespace SqlFormat.Layout

/-- A token to be laid out. -/
structure Item where
  token : Token
  /-- An opening bracket directly after white space or a comment. -/
  apart : Bool
  /-- A comment that stood first on its line. -/
  startsLine : Bool
  /-- A comment that stood last on its line. -/
  endsLine : Bool
  /-- For an opening bracket, the width of its group if that may stay on one line. -/
  inlineWidth : Option Nat

/-- The text holds a line feed. -/
def hasLineFeed (s : String) : Bool :=
  s.toList.contains '\n'

/-- The token is white space with a line feed in it. -/
def isLineBreak (t : Token) : Bool :=
  t.kind == .whitespace && hasLineFeed t.text

/-- The token opens a bracket group. -/
def isOpeningBracket (t : Token) : Bool :=
  t.kind == .openParen && t.isBracket

namespace Item

/-- What stands before a token: nothing, a token that is the first of all, or a later one. -/
inductive Before where
  | nothing
  | first (t : Token)
  | later (t : Token)

namespace Before

/-- White space or a comment stands before. -/
def isGap : Before → Bool
  | nothing => false
  | first t | later t => t.kind == .whitespace || t.kind.isComment

/-- A comment here stands first on its line: it is the first token, only white space stands before
it, or white space with a line feed. -/
def isLineStart : Before → Bool
  | nothing => true
  | first t => t.kind == .whitespace
  | later t => isLineBreak t

/-- What stands before the token after `t`. -/
def next (before : Before) (t : Token) : Before :=
  match before with
  | nothing => first t
  | first _ | later _ => later t

end Before

/-- The item of a token between its neighbours, without the width of its group. -/
def ofNeighbours (before : Before) (t : Token) (after : Option Token) : Item where
  token := t
  apart := isOpeningBracket t && before.isGap
  startsLine := t.kind.isComment && before.isLineStart
  endsLine := t.kind == .lineComment || (t.kind == .blockComment && after.any isLineBreak)
  inlineWidth := none

/-- The items of tokens that follow `before`, without the widths of groups. -/
def gather (before : Before) : List Token → List Item
  | [] => []
  | t :: ts =>
    let rest := gather (before.next t) ts
    if t.kind == .whitespace then rest else ofNeighbours before t ts.head? :: rest

/-- Note the widths of the groups, the first item having index `i`. -/
def measure (groups : Groups) (i : Nat) : List Item → List Item
  | [] => []
  | item :: items =>
    { item with inlineWidth := groups.inlineWidth? i } :: measure groups (i + 1) items

/-- The items of a token sequence. -/
def ofTokens (tokens : List Token) : List Item :=
  let items := gather .nothing tokens
  measure (Groups.ofTokens (items.map (·.token))) 0 items

end Item

end SqlFormat.Layout

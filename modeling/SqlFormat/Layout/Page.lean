import SqlFormat.Style

/-!
# Lines and pages

A page holds the lines that are finished and the one being written. A line break is only noted when
it is asked for, and takes effect with the next text, so that the last of several breaks decides how
far the next line is indented.

While a line is written, places in it that alignment may move are noted as anchors.
-/

namespace SqlFormat.Layout

/-- What an anchor stands before. -/
inductive AnchorKind where
  /-- The `AS` of an alias. -/
  | alias
  /-- The operator of an assignment. -/
  | assign
  /-- A value of a tuple. -/
  | value
deriving DecidableEq, Repr

/-- A place in a line. -/
structure Anchor where
  kind : AnchorKind
  /-- The places of one kind on a line are told apart by their slots. -/
  slot : Nat
  /-- The bytes of the line before the place. -/
  offset : Nat
  /-- The visible columns of the line before the place. -/
  column : Nat
deriving DecidableEq, Repr

/-- A line of output. -/
structure Line where
  /-- The levels of indentation. -/
  indent : Nat
  text : String
  /-- The visible columns of the text, from the last line feed in it. -/
  width : Nat
  anchors : List Anchor
deriving DecidableEq, Repr

/-- An empty line. -/
def Line.empty (indent : Nat) : Line := ⟨indent, "", 0, []⟩

/-- The first anchor of a kind and slot. -/
def Line.anchor? (line : Line) (kind : AnchorKind) (slot : Nat) : Option Anchor :=
  line.anchors.find? fun a => a.kind == kind && a.slot == slot

/-- Output being written. -/
structure Page where
  /-- Finished lines, last first. -/
  done : List Line
  /-- The line being written. -/
  line : Line
  /-- The indentation of the line to start with the next text, if one is to be started. -/
  breakAt : Option Nat
  /-- The empty lines to come before it. -/
  blankLines : Nat

namespace Page

/-- An empty page. -/
def start : Page := ⟨[], .empty 0, none, 0⟩

/-- Let the next text start a line with this indentation. -/
def newline (page : Page) (indent : Nat) : Page :=
  { page with breakAt := some indent }

/-- Let at least so many empty lines come before the next line. -/
def blank (page : Page) (lines : Nat) : Page :=
  { page with blankLines := max page.blankLines lines }

/-- The next text is the first of its line. -/
def atLineStart (page : Page) : Bool :=
  page.breakAt.isSome || page.line.text.isEmpty

/-- The indentation of the line that the next text goes to. -/
def indent (page : Page) : Nat :=
  page.breakAt.getD page.line.indent

/-- The column at which the next text starts, one level of indentation being `unit` columns wide. -/
def column (page : Page) (unit : Nat) : Nat :=
  match page.breakAt with
  | some indent => indent * unit
  | none => page.line.indent * unit + page.line.width

/-- Text at the end of the line, of which the last line is `width` columns wide. -/
def write (page : Page) (text : String) (width : Nat) : Page :=
  { page with
    line :=
      { page.line with
        text := page.line.text ++ text
        width := if text.toList.contains '\n' then width else page.line.width + width } }

/-- Start the line that is to be started, or else write a space if one is wanted and the line is
not empty. -/
def advance (page : Page) (space : Bool) : Page :=
  match page.breakAt with
  | some indent =>
    if page.line.text.isEmpty then
      { page with line := { page.line with indent := indent }, breakAt := none, blankLines := 0 }
    else
      { done := List.replicate page.blankLines (.empty 0) ++ page.line :: page.done
        line := .empty indent
        breakAt := none
        blankLines := 0 }
  | none => if space && !page.line.text.isEmpty then page.write " " 1 else page

/-- Note an anchor at the end of the line. -/
def anchor (page : Page) (kind : AnchorKind) (slot : Nat) : Page :=
  let place : Anchor := ⟨kind, slot, page.line.text.utf8ByteSize, page.line.width⟩
  { page with line := { page.line with anchors := page.line.anchors ++ [place] } }

/-- The line that the next text goes to has an anchor of this kind. -/
def lineHas (page : Page) (kind : AnchorKind) : Bool :=
  page.breakAt.isNone && page.line.anchors.any (·.kind == kind)

/-- All lines, first to last. -/
def lines (page : Page) : List Line :=
  (page.line :: page.done).reverse

end Page

end SqlFormat.Layout

import SqlFormat.Layout.Page

/-!
# Alignment

Lines that follow each other with the same indentation are lined up: for each slot of an anchor kind
that at least two of them have, spaces are put before the place so that it stands in the same column
on all of them.

The offsets of the anchors are those of the lines as they were written. Padding for one kind does not
move the anchors of another, so that an offset may fall inside a character; then there is no result.
-/

namespace SqlFormat.Layout

/-- Spaces put into a text after so many bytes, if no character is split. -/
def insertSpaces? (offset count : Nat) : List Char → Option (List Char)
  | [] => if offset = 0 then some (List.replicate count ' ') else none
  | c :: cs =>
    if offset = 0 then some (List.replicate count ' ' ++ c :: cs)
    else if c.utf8Size ≤ offset then
      (insertSpaces? (offset - c.utf8Size) count cs).map (c :: ·)
    else none

/-- A line with spaces put in after so many bytes. -/
def Line.pad? (line : Line) (offset count : Nat) : Option Line :=
  (insertSpaces? offset count line.text.toList).map fun cs =>
    { line with text := String.ofList cs }

namespace Alignment

/-- A line and the number of spaces put into it so far. -/
structure Row where
  line : Line
  shift : Nat

/-- The column of a slot. -/
def Row.column? (row : Row) (kind : AnchorKind) (slot : Nat) : Option Nat :=
  (row.line.anchor? kind slot).map fun a => a.column + row.shift

/-- Move a slot to a column. -/
def Row.moveTo? (row : Row) (kind : AnchorKind) (slot target : Nat) : Option Row :=
  match row.line.anchor? kind slot with
  | none => some row
  | some a =>
    let count := target - (a.column + row.shift)
    if count = 0 then some row
    else (row.line.pad? (a.offset + row.shift) count).map fun line => ⟨line, row.shift + count⟩

/-- Line up one slot of the rows, if at least two have it. -/
def alignSlot? (kind : AnchorKind) (slot : Nat) (rows : List Row) : Option (List Row) :=
  let columns := rows.filterMap (·.column? kind slot)
  if columns.length < 2 then some rows
  else
    let target := columns.foldl max 0
    rows.mapM (·.moveTo? kind slot target)

/-- Line up the slots from `slot` on, `count` of them. -/
def alignSlots? (kind : AnchorKind) : (slot count : Nat) → List Row → Option (List Row)
  | _, 0, rows => some rows
  | slot, count + 1, rows => (alignSlot? kind slot rows).bind (alignSlots? kind (slot + 1) count)

/-- The slots of a kind that lines have. -/
def slots (kind : AnchorKind) (lines : List Line) : List Nat :=
  (lines.flatMap (·.anchors)).filterMap fun a => if a.kind == kind then some a.slot else none

/-- Line up the anchors of a kind in lines that belong together. -/
def alignGroup? (kind : AnchorKind) (lines : List Line) : Option (List Line) :=
  match (slots kind lines).max? with
  | none => some lines
  | some last =>
    (alignSlots? kind 0 (last + 1) (lines.map (⟨·, 0⟩))).map fun rows => rows.map (·.line)

/-- Two neighbouring lines belong together: they have the same indentation, and the second is not
empty. -/
def together (first second : Line) : Bool :=
  second.indent == first.indent && !second.text.isEmpty

/-- Line up the anchors of a kind in all lines. -/
def align? (kind : AnchorKind) (lines : List Line) : Option (List Line) :=
  ((lines.splitBy together).mapM (alignGroup? kind)).map List.flatten

/-- Line up what the style asks for. -/
def alignAll? (style : Style) (lines : List Line) : Option (List Line) := do
  let lines ← if style.alignColumns then align? .alias lines else some lines
  let lines ← if style.alignAssignments then align? .assign lines else some lines
  if style.alignValues then align? .value lines else some lines

end Alignment

end SqlFormat.Layout

import SqlFormat.Checked.Fault
import SqlFormat.Layout.Alignment

/-!
# Alignment, index by index

The lines that belong together are found by their indices. A line is padded where no character is
split, and never to a column before the one that it has.
-/

namespace SqlFormat.Checked.Alignment

open SqlFormat.Layout SqlFormat.Layout.Alignment

/-- Move a slot to a column. -/
def moveTo (row : Row) (kind : AnchorKind) (slot target : Nat) : Checked Row :=
  match row.line.anchor? kind slot with
  | none => return row
  | some a => do
    let count ← minus target (a.column + row.shift)
    if count = 0 then return row
    else
      let line ← expect .insertion (row.line.pad? (a.offset + row.shift) count)
      return ⟨line, row.shift + count⟩

/-- Line up one slot of the rows, if at least two have it. -/
def alignSlot (kind : AnchorKind) (slot : Nat) (rows : List Row) : Checked (List Row) :=
  let columns := rows.filterMap (·.column? kind slot)
  if columns.length < 2 then return rows
  else
    let target := columns.foldl max 0
    rows.mapM (moveTo · kind slot target)

/-- Line up the slots from `slot` on, `count` of them. -/
def alignSlots (kind : AnchorKind) : (slot count : Nat) → List Row → Checked (List Row)
  | _, 0, rows => return rows
  | slot, count + 1, rows => do alignSlots kind (slot + 1) count (← alignSlot kind slot rows)

/-- Line up the anchors of a kind in lines that belong together. -/
def alignGroup (kind : AnchorKind) (lines : List Line) : Checked (List Line) :=
  match (slots kind lines).max? with
  | none => return lines
  | some last => do
    return (← alignSlots kind 0 (last + 1) (lines.map (⟨·, 0⟩))).map (·.line)

/-- The number of lines from an index on that belong to the lines before, which have this
indentation. -/
def following (lines : Array Line) (indent i : Nat) : Checked Nat :=
  if i < lines.size then do
    let line ← element lines i
    if line.indent == indent && !line.text.isEmpty then
      return (← following lines indent (i + 1)) + 1
    else return 0
  else return 0
termination_by lines.size - i

/-- Line up the anchors of a kind in the lines from an index on. -/
def alignFrom (kind : AnchorKind) (lines : Array Line) (start : Nat) : Checked (List Line) :=
  if start < lines.size then do
    let first ← element lines start
    let more ← following lines first.indent (start + 1)
    let group ← alignGroup kind (← part lines start (start + 1 + more)).toList
    return group ++ (← alignFrom kind lines (start + 1 + more))
  else return []
termination_by lines.size - start

/-- Line up the anchors of a kind in all lines. -/
def align (kind : AnchorKind) (lines : List Line) : Checked (List Line) :=
  alignFrom kind lines.toArray 0

/-- Line up what the style asks for. -/
def alignAll (style : Style) (lines : List Line) : Checked (List Line) := do
  let lines ← if style.alignColumns then align .alias lines else pure lines
  let lines ← if style.alignAssignments then align .assign lines else pure lines
  if style.alignValues then align .value lines else pure lines

end SqlFormat.Checked.Alignment

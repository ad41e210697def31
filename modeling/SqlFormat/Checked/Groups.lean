import SqlFormat.Checked.Fault
import SqlFormat.Groups

/-!
# Bracket groups, index by index

The tables of `Groups` are filled while the tokens are read. What is looked up in them, and what a
width is taken from, has to be there.
-/

namespace SqlFormat.Checked.Groups

open SqlFormat.Groups

/-- The tables so far, and the indices of the open brackets, innermost first. -/
structure Progress where
  groups : Groups
  opened : List Nat

/-- The tables before the first of so many tokens. -/
def Progress.start (count : Nat) : Progress :=
  ⟨⟨Array.replicate count none, #[0], #[0]⟩, []⟩

/-- The innermost of the open brackets that is written like this, and those around it. -/
def innermost? (tokens : Array Token) (text : String) :
    List Nat → Checked (Option (Nat × List Nat))
  | [] => return none
  | o :: outer => do
    if (← element tokens o).text == text then return some (o, outer)
    else innermost? tokens text outer

/-- Add a token to the sums. -/
def count (groups : Groups) (i : Nat) (t : Token) : Checked Groups := do
  let width ← element groups.widths i
  let breaks ← element groups.breaks i
  return { groups with
    widths := groups.widths.push (width + t.width)
    breaks := groups.breaks.push (breaks + t.breaksLine.toNat) }

/-- Read the token with index `i`. -/
def step (tokens : Array Token) (progress : Progress) (i : Nat) (t : Token) :
    Checked Progress := do
  let groups ← count progress.groups i t
  if t.isBracket then
    if t.text == "(" || t.text == "[" then return ⟨groups, i :: progress.opened⟩
    else
      match ← innermost? tokens (openingOf t.text) progress.opened with
      | some (o, outer) =>
        return ⟨{ groups with closing := ← store groups.closing o (some i) }, outer⟩
      | none => return ⟨groups, progress.opened⟩
  else return ⟨groups, progress.opened⟩

/-- Read tokens of which the first has index `i`. -/
def run (tokens : Array Token) (progress : Progress) (i : Nat) : List Token → Checked Progress
  | [] => return progress
  | t :: ts => do run tokens (← step tokens progress i t) (i + 1) ts

/-- The groups of a token sequence. -/
def ofTokens (tokens : Array Token) : Checked Groups := do
  return (← run tokens (.start tokens.size) 0 tokens.toList).groups

/-- The width of the group opened at an index on one line, brackets included. -/
def width? (groups : Groups) (i : Nat) : Checked (Option Nat) :=
  match groups.matchingClose? i with
  | some j => do
    let span ← minus (← element groups.widths (j + 1)) (← element groups.widths i)
    return some (← minus span 1)
  | none => return none

/-- The width of the group opened at an index, if nothing in it has to start a line. -/
def inlineWidth? (groups : Groups) (i : Nat) : Checked (Option Nat) :=
  match groups.matchingClose? i with
  | some j => do
    if (← element groups.breaks (j + 1)) = (← element groups.breaks i) then width? groups i
    else return none
  | none => return none

end SqlFormat.Checked.Groups

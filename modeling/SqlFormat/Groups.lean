import SqlFormat.Token

/-!
# Bracket groups

A bracket group may be kept on one line if it is closed, holds nothing that has to start a line, and
is narrow enough. The width of a group does not depend on the white space in the source: every token
counts as its text and one space.

A closing bracket closes the innermost open bracket of its own form. The brackets opened since then
stay without a partner.
-/

namespace SqlFormat

/-- The width of a token and the space after it. Keywords count with one space between words. -/
def Token.width (t : Token) : Nat :=
  if t.kind == .whitespace then 0
  else if t.kind.isReserved then t.keyText.length + 1
  else t.text.length + 1

/-- A token that a group on one line may not hold. -/
def Token.breaksLine (t : Token) : Bool :=
  t.kind.breaksInlineGroup || t.isOperator ";" || (t.kind == .openParen && !t.isBracket)

namespace Groups

/-- Brackets read so far: the open ones, innermost first, and the pairs found. -/
structure Scan where
  opened : List (Nat × String)
  pairs : List (Nat × Nat)

/-- Nothing has been read. -/
def Scan.start : Scan := ⟨[], []⟩

/-- The opening bracket of the same form as a closing one. -/
def openingOf (closer : String) : String :=
  if closer == ")" then "(" else "["

/-- Read the token with index `i`. -/
def Scan.step (scan : Scan) (i : Nat) (t : Token) : Scan :=
  if t.isBracket then
    if t.text == "(" || t.text == "[" then { scan with opened := (i, t.text) :: scan.opened }
    else
      match scan.opened.dropWhile (·.2 != openingOf t.text) with
      | [] => scan
      | (o, _) :: outer => ⟨outer, (o, i) :: scan.pairs⟩
  else scan

/-- Read tokens of which the first has index `i`. -/
def Scan.run (scan : Scan) (i : Nat) : List Token → Scan
  | [] => scan
  | t :: ts => (scan.step i t).run (i + 1) ts

/-- The sums of the first 0, 1, … numbers, on top of `total`. -/
def runningSums (total : Nat) : List Nat → List Nat
  | [] => [total]
  | n :: ns => total :: runningSums (total + n) ns

end Groups

/-- The bracket groups of a token sequence. -/
structure Groups where
  /-- For each token the index of the bracket that closes it. -/
  closing : Array (Option Nat)
  /-- The width of the tokens before each index. -/
  widths : Array Nat
  /-- The number of line-breaking tokens before each index. -/
  breaks : Array Nat

namespace Groups

/-- The groups of a token sequence. -/
def ofTokens (tokens : List Token) : Groups where
  closing :=
    (Scan.start.run 0 tokens).pairs.foldl (fun table (o, c) => table.setIfInBounds o (some c))
      (Array.replicate tokens.length none)
  widths := (runningSums 0 (tokens.map Token.width)).toArray
  breaks := (runningSums 0 (tokens.map fun t => t.breaksLine.toNat)).toArray

/-- The index of the bracket that closes the group opened at an index. -/
def matchingClose? (groups : Groups) (i : Nat) : Option Nat :=
  (groups.closing[i]?).join

/-- The width of the group opened at an index on one line, brackets included. -/
def width? (groups : Groups) (i : Nat) : Option Nat :=
  (groups.matchingClose? i).map fun j =>
    groups.widths.getD (j + 1) 0 - groups.widths.getD i 0 - 1

/-- The width of the group opened at an index, if nothing in it has to start a line. -/
def inlineWidth? (groups : Groups) (i : Nat) : Option Nat :=
  match groups.matchingClose? i with
  | some j =>
    if groups.breaks.getD (j + 1) 0 = groups.breaks.getD i 0 then groups.width? i else none
  | none => none

/-- A group of this width fits into the room there is; no room given is no limit. -/
def fitsIn (width : Option Nat) (available : Option Nat) : Bool :=
  match width, available with
  | none, _ => false
  | some _, none => true
  | some w, some a => w ≤ a

/-- The group opened at an index can stay on one line with so much room. -/
def fits (groups : Groups) (i : Nat) (available : Option Nat) : Bool :=
  fitsIn (groups.inlineWidth? i) available

end Groups

end SqlFormat

import SqlFormat.Lexicon

/-!
# Nesting

The blocks that are open at a place in a text. Each block has a frame that knows how far the line
of its opener is indented, which is where its closer goes, and how far the clauses in it are
indented. There are at most `maxDepth` frames; openers beyond that are only counted.
-/

namespace SqlFormat.Layout

/-- The most frames that may be open. -/
def maxDepth : Nat := 64

/-- The clauses that layout treats differently. -/
inductive Clause where
  | select
  | set
  | values
  | limit
  | other
deriving DecidableEq, Repr

/-- The clause that a keyword starts. -/
def Clause.ofKey (key : String) : Clause :=
  match key with
  | "select" => .select
  | "set" | "do update set" | "on duplicate key update" => .set
  | "values" => .values
  | "limit" => .limit
  | _ => .other

/-- An open block. -/
structure Frame where
  context : BlockContext
  /-- The key of the opener. -/
  key : String
  /-- The indentation of the closer. -/
  outer : Nat
  /-- The indentation of the clauses in the block. -/
  base : Nat
  /-- The block stays on one line. -/
  inline : Bool
  /-- The clause that is being written. -/
  clause : Option Clause
  /-- The keyword that ends the header of the block, while that is being written. -/
  headerEnd : Option String
  /-- The slot of the last value, in a tuple whose values are lined up. -/
  valueSlot : Option Nat
deriving DecidableEq, Repr

/-- The frame of a block procedural statements stand in. -/
def Frame.isProcedural (f : Frame) : Bool :=
  f.context == .procedural

/-- The open blocks. -/
structure Nesting where
  /-- The frames, innermost first. -/
  stack : List Frame
  /-- The clause that is being written outside all blocks. -/
  rootClause : Option Clause
  /-- The number of procedural frames. -/
  proceduralDepth : Nat
  /-- The openers that got no frame because there were too many. -/
  overflow : Nat
deriving DecidableEq, Repr

namespace Nesting

/-- No block is open. -/
def start : Nesting := ⟨[], none, 0, 0⟩

/-- The innermost frame. -/
def top? (n : Nesting) : Option Frame := n.stack.head?

/-- The clause that is being written. -/
def clause (n : Nesting) : Option Clause :=
  match n.stack with
  | f :: _ => f.clause
  | [] => n.rootClause

/-- The indentation of clauses. -/
def base (n : Nesting) : Nat :=
  match n.stack with
  | f :: _ => f.base
  | [] => 0

/-- The indentation of the content of a clause. -/
def depth (n : Nesting) : Nat :=
  n.base + n.clause.isSome.toNat

/-- The innermost block stays on one line. -/
def inInline (n : Nesting) : Bool :=
  n.top?.any (·.inline)

/-- The header of the innermost block is being written. -/
def inHeader (n : Nesting) : Bool :=
  n.top?.any (·.headerEnd.isSome)

/-- The innermost frame, if it is procedural. -/
def topProcedural? (n : Nesting) : Option Frame :=
  n.top?.filter Frame.isProcedural

/-- Change the innermost frame. -/
def modifyTop (n : Nesting) (change : Frame → Frame) : Nesting :=
  match n.stack with
  | f :: rest => { n with stack := change f :: rest }
  | [] => n

/-- Start a clause, or end one. -/
def setClause (n : Nesting) (clause : Option Clause) : Nesting :=
  match n.stack with
  | f :: rest => { n with stack := { f with clause := clause } :: rest }
  | [] => { n with rootClause := clause }

/-- The number of procedural frames among some. -/
def countProcedural (frames : List Frame) : Nat :=
  frames.countP Frame.isProcedural

/-- Open a block. -/
def push (n : Nesting) (f : Frame) : Nesting :=
  { n with
    stack := f :: n.stack
    proceduralDepth := n.proceduralDepth + f.isProcedural.toNat }

/-- Drop the innermost frames so that `size` are left. Openers without a frame were inside the
dropped ones, so none of them is open any more. -/
def truncate (n : Nesting) (size : Nat) : Nesting :=
  if n.stack.length ≤ size then n
  else
    let excess := n.stack.length - size
    { n with
      stack := n.stack.drop excess
      overflow := 0
      proceduralDepth := n.proceduralDepth - countProcedural (n.stack.take excess) }

/-- Close the innermost frame. -/
def pop (n : Nesting) : Nesting :=
  match n.stack with
  | f :: rest =>
    { n with stack := rest, proceduralDepth := n.proceduralDepth - f.isProcedural.toNat }
  | [] => n

/-- The innermost frame that satisfies `p`, and the nesting after it is closed with all that is open
inside it. -/
def close? (n : Nesting) (p : Frame → Bool) : Option (Frame × Nesting) :=
  match n.stack.dropWhile fun f => !p f with
  | [] => none
  | f :: rest => some (f, (n.truncate (rest.length + 1)).pop)

/-- Drop what is open inside the innermost procedural frame, if there is one. -/
def toProcedural? (n : Nesting) : Option Nesting :=
  match n.stack.dropWhile fun f => !f.isProcedural with
  | [] => none
  | f :: rest => some (n.truncate (f :: rest).length)

/-- Close everything. -/
def clear (n : Nesting) : Nesting :=
  { n.truncate 0 with overflow := 0, rootClause := none }

/-- There is no room for one more frame. -/
def isFull (n : Nesting) : Bool :=
  maxDepth ≤ n.stack.length

end Nesting

end SqlFormat.Layout

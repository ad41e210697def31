import SqlFormat.Checked.Fault
import SqlFormat.Layout.Nesting

/-!
# Open blocks and their counters

The operations of `Nesting` that take something away. What they take from a counter has to be in it,
and after each of them the counter of procedural frames has to be right.
-/

namespace SqlFormat.Checked.Nesting

open SqlFormat.Layout

/-- The counter of procedural frames is right. -/
def assertCounted (n : Nesting) : Checked Unit :=
  assert (n.proceduralDepth == Nesting.countProcedural n.stack)

/-- Open a block. -/
def push (n : Nesting) (f : Frame) : Checked Nesting := do
  assertCounted (n.push f)
  return n.push f

/-- Drop the innermost frames so that `size` are left. -/
def truncate (n : Nesting) (size : Nat) : Checked Nesting :=
  if n.stack.length ≤ size then return n
  else do
    let excess ← minus n.stack.length size
    let depth ← minus n.proceduralDepth (Nesting.countProcedural (n.stack.take excess))
    let left := { n with stack := n.stack.drop excess, overflow := 0, proceduralDepth := depth }
    assertCounted left
    return left

/-- Close the innermost frame. -/
def pop (n : Nesting) : Checked Nesting :=
  match n.stack with
  | f :: rest => do
    let depth ← minus n.proceduralDepth f.isProcedural.toNat
    let left := { n with stack := rest, proceduralDepth := depth }
    assertCounted left
    return left
  | [] => return n

/-- The innermost frame that satisfies `p`, and the nesting after it is closed with all that is open
inside it. -/
def close? (n : Nesting) (p : Frame → Bool) : Checked (Option (Frame × Nesting)) :=
  match n.stack.dropWhile fun f => !p f with
  | [] => return none
  | f :: rest => do return some (f, ← pop (← truncate n (rest.length + 1)))

/-- Drop what is open inside the innermost procedural frame, if there is one. -/
def toProcedural? (n : Nesting) : Checked (Option Nesting) :=
  match n.stack.dropWhile fun f => !f.isProcedural with
  | [] => return none
  | f :: rest => do return some (← truncate n (f :: rest).length)

/-- Close everything. -/
def clear (n : Nesting) : Checked Nesting := do
  return { ← truncate n 0 with overflow := 0, rootClause := none }

end SqlFormat.Checked.Nesting

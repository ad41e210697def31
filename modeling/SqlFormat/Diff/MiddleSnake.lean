/-!
# A point on a shortest path

Editing one list into another is a path through a grid, with a step to the right for an item that is
deleted, a step down for one that is inserted, and a diagonal for one that both have. The paths of
growing length are followed from both corners until they meet. For each diagonal `k`, a table holds
how far the paths of the current length get.
-/

namespace SqlFormat.Diff

variable {α : Type} [DecidableEq α]

/-- The furthest points on the diagonals. -/
structure Reach where
  offset : Nat
  points : Array Nat

namespace Reach

/-- Nothing has been reached. -/
def start (limit : Nat) : Reach := ⟨limit + 1, Array.replicate (2 * limit + 3) 0⟩

/-- How far paths get on a diagonal. -/
def get (r : Reach) (k : Int) : Nat :=
  r.points.getD (k + r.offset).toNat 0

/-- Note how far paths get on a diagonal. -/
def set (r : Reach) (k : Int) (x : Nat) : Reach :=
  { r with points := r.points.setIfInBounds (k + r.offset).toNat x }

/-- The start of the last diagonal of a path of length `d` on a diagonal. -/
def enter (r : Reach) (d k : Int) : Nat :=
  if k = -d ∨ (k ≠ d ∧ r.get (k - 1) < r.get (k + 1)) then r.get (k + 1) else r.get (k - 1) + 1

end Reach

/-- The number of equal items from two positions on, going forward. -/
def runForward (old new : Array α) (x y : Nat) : (room : Nat) → Nat
  | 0 => 0
  | room + 1 =>
    match old[x]?, new[y]? with
    | some a, some b => if a = b then runForward old new (x + 1) (y + 1) room + 1 else 0
    | _, _ => 0

/-- The number of equal items before two positions, going backward. -/
def runBackward (old new : Array α) (x y : Nat) : (room : Nat) → Nat
  | 0 => 0
  | room + 1 =>
    if x = 0 ∨ y = 0 then 0
    else match old[x - 1]?, new[y - 1]? with
      | some a, some b => if a = b then runBackward old new (x - 1) (y - 1) room + 1 else 0
      | _, _ => 0

/-- The diagonals of paths of length `d`, from the highest to the lowest. -/
def diagonals (d : Nat) : List Int :=
  (List.range (d + 1)).map fun (i : Nat) => (d : Int) - 2 * i

/-- Follow the paths from the first corner along some diagonals, and stop where they meet those from
the other corner. -/
def forward (old new : Array α) (d : Nat) (other : Reach) :
    Reach → List Int → Reach × Option (Nat × Nat)
  | reach, [] => (reach, none)
  | reach, k :: ks =>
    let delta : Int := old.size - new.size
    let x₀ := reach.enter d k
    let y₀ := ((x₀ : Int) - k).toNat
    let x := x₀ + runForward old new x₀ y₀ (old.size - x₀)
    let reach := reach.set k x
    if delta % 2 ≠ 0 ∧ (k - delta).natAbs + 1 ≤ d ∧ old.size ≤ x + other.get (delta - k) then
      (reach, some (x₀, y₀))
    else forward old new d other reach ks

/-- Follow the paths from the last corner along some diagonals, and stop where they meet those from
the first. -/
def backward (old new : Array α) (d : Nat) (other : Reach) :
    Reach → List Int → Reach × Option (Nat × Nat)
  | reach, [] => (reach, none)
  | reach, k :: ks =>
    let delta : Int := old.size - new.size
    let x₀ := reach.enter d k
    let y₀ := ((x₀ : Int) - k).toNat
    let run := runBackward old new (old.size - x₀) (new.size - y₀) (old.size - x₀)
    let x := x₀ + run
    let y := y₀ + run
    let reach := reach.set k x
    if delta % 2 = 0 ∧ (k - delta).natAbs ≤ d ∧ old.size ≤ x + other.get (delta - k) then
      (reach, some (old.size - x, new.size - y))
    else backward old new d other reach ks

/-- Follow paths of length `d` and more, `rounds` lengths in all. -/
def meet (old new : Array α) : (rounds d : Nat) → Reach → Reach → Option (Nat × Nat)
  | 0, _, _, _ => none
  | rounds + 1, d, fromFirst, fromLast =>
    match forward old new d fromLast fromFirst (diagonals d) with
    | (_, some point) => some point
    | (fromFirst, none) =>
      match backward old new d fromFirst fromLast (diagonals d) with
      | (_, some point) => some point
      | (fromLast, none) => meet old new rounds (d + 1) fromFirst fromLast

/-- A point at which a shortest path can be divided. -/
def middleSnake? (old new : Array α) : Option (Nat × Nat) :=
  let limit := (old.size + new.size + 1) / 2 + 1
  meet old new limit 0 (.start limit) (.start limit)

end SqlFormat.Diff

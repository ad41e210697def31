import Mathlib
import SqlFormat.Checked.Nesting
import SqlFormat.Proofs.Checked.Fault
import SqlFormat.Proofs.Layout.Nesting

/-!
# Nothing is taken from a counter that does not have it

On open blocks that are counted right, every operation gives what it gives without a check.

Results: `push_eq`, `truncate_eq`, `close?_eq`, `toProcedural?_eq`, `clear_eq`.
-/

namespace SqlFormat.Checked.Nesting

open SqlFormat.Layout

variable {n : Nesting}

theorem assertCounted_eq (h : n.proceduralDepth = Nesting.countProcedural n.stack) :
    assertCounted n = .ok () := by
  rw [assertCounted, assert, if_pos (beq_iff_eq.mpr h)]

theorem push_eq (h : n.Sound) (f : Frame) : push n f = .ok (n.push f) := by
  have hcounted : (n.push f).proceduralDepth = Nesting.countProcedural (n.push f).stack := by
    rw [Layout.Nesting.push, Nesting.countProcedural_cons, h.procedural]
  rw [push, assertCounted_eq hcounted]
  rfl

theorem truncate_eq (h : n.Sound) (size : Nat) : truncate n size = .ok (n.truncate size) := by
  have hsound := (h.truncate size).procedural
  have hdepth := h.truncate_depth size
  rw [truncate]
  rw [Layout.Nesting.truncate] at hsound hdepth ⊢
  by_cases hle : n.stack.length ≤ size
  · rw [if_pos hle, if_pos hle]
    rfl
  · rw [if_neg hle] at hsound hdepth
    simp only at hsound hdepth
    rw [if_neg hle, if_neg hle, minus_eq (by omega), ok_bind, minus_eq (by omega), ok_bind]
    simp only
    rw [assertCounted_eq hsound]
    rfl

theorem pop_eq (h : n.Sound) (hover : n.overflow = 0) : pop n = .ok n.pop := by
  have hsound := (h.pop hover).procedural
  rw [pop]
  cases hstack : n.stack with
  | nil =>
    rw [Layout.Nesting.pop, hstack]
    rfl
  | cons f rest =>
    have hdepth := h.pop_depth hstack
    rw [Layout.Nesting.pop, hstack] at hsound hdepth ⊢
    simp only at hsound hdepth ⊢
    rw [minus_eq (by omega), ok_bind, assertCounted_eq hsound]
    rfl

theorem close?_eq (h : n.Sound) (hover : n.overflow = 0) (p : Frame → Bool) :
    close? n p = .ok (n.close? p) := by
  rw [close?, Layout.Nesting.close?]
  cases n.stack.dropWhile fun f => !p f with
  | nil => rfl
  | cons f rest =>
    simp only
    rw [truncate_eq h, ok_bind, pop_eq (h.truncate _) (Nesting.truncate_overflow hover _)]
    rfl

theorem toProcedural?_eq (h : n.Sound) : toProcedural? n = .ok n.toProcedural? := by
  rw [toProcedural?, Layout.Nesting.toProcedural?]
  cases n.stack.dropWhile fun f => !f.isProcedural with
  | nil => rfl
  | cons f rest =>
    simp only
    rw [truncate_eq h]
    rfl

theorem clear_eq (h : n.Sound) : clear n = .ok n.clear := by
  rw [clear, truncate_eq h]
  rfl

end SqlFormat.Checked.Nesting

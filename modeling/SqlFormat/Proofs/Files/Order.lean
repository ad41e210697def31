import Mathlib
import SqlFormat.Files.Collect

/-!
# The order of the paths that are found

Paths are ordered by their components, and the paths that inputs lead to are kept in that order, each
once.

Results: `Collect.paths_sorted`.
-/

namespace SqlFormat

namespace Path

instance : Std.TransCmp Component.order where
  eq_swap {a b} := by
    cases a <;> cases b <;> first | rfl | exact Std.OrientedOrd.eq_swap
  isLE_trans {a b c} hab hbc := by
    cases a <;> cases b <;> cases c <;>
      first
      | rfl
      | exact Std.TransOrd.isLE_trans hab hbc
      | exact absurd hab Bool.false_ne_true
      | exact absurd hbc Bool.false_ne_true

theorem orderComponents_eq (as bs : List Component) :
    orderComponents as bs = List.compareLex Component.order as bs := by
  induction as generalizing bs with
  | nil => cases bs <;> rfl
  | cons a as ih =>
    cases bs with
    | nil => rfl
    | cons b bs =>
      rw [orderComponents, ih, List.compareLex_cons_cons]

instance : Std.TransCmp Path.order where
  eq_swap := by
    intro a b
    unfold order
    rw [orderComponents_eq, orderComponents_eq]
    exact Std.OrientedCmp.eq_swap
  isLE_trans := by
    intro a b c hab hbc
    unfold order at hab hbc ⊢
    rw [orderComponents_eq] at hab hbc ⊢
    exact Std.TransCmp.isLE_trans hab hbc

end Path

namespace Collect

/-- Every path stands before those that follow it. -/
abbrev Sorted (paths : List Path) : Prop :=
  paths.Pairwise fun a b => a.order b = .lt

theorem mem_insertPath {path other : Path} {paths : List Path} (h : other ∈ insertPath path paths) :
    other = path ∨ other ∈ paths := by
  induction paths with
  | nil => exact .inl (List.mem_singleton.mp h)
  | cons first rest ih =>
    unfold insertPath at h
    split at h
    · exact List.mem_cons.mp h
    · exact .inr h
    · obtain rfl | h := List.mem_cons.mp h
      · exact .inr List.mem_cons_self
      · exact (ih h).imp_right (List.mem_cons_of_mem _)

theorem Sorted.insertPath {paths : List Path} (h : Sorted paths) (path : Path) :
    Sorted (insertPath path paths) := by
  induction paths with
  | nil => exact List.pairwise_singleton _ path
  | cons first rest ih =>
    obtain ⟨hfirst, hrest⟩ := List.pairwise_cons.mp h
    unfold Collect.insertPath
    split
    · next hlt =>
      refine List.pairwise_cons.mpr ⟨fun other hother => ?_, h⟩
      obtain rfl | hother := List.mem_cons.mp hother
      · exact hlt
      · exact Std.TransCmp.lt_trans hlt (hfirst other hother)
    · exact h
    · next hgt =>
      refine List.pairwise_cons.mpr ⟨fun other hother => ?_, ih hrest⟩
      obtain rfl | hother := mem_insertPath hother
      · exact Std.OrientedCmp.gt_iff_lt.mp hgt
      · exact hfirst other hother

/-- The paths that inputs lead to are in order. -/
theorem paths_sorted (tree : FileTree) (exclude : List String) (inputs : List Path) :
    Sorted (paths tree exclude inputs) := by
  have hfold : ∀ found sorted : List Path, Sorted sorted →
      Sorted (found.foldl (fun found path => Collect.insertPath path found) sorted) := by
    intro found
    induction found with
    | nil => exact fun _ h => h
    | cons path found ih => exact fun sorted h => ih _ (h.insertPath path)
  exact hfold _ [] .nil

end Collect

end SqlFormat

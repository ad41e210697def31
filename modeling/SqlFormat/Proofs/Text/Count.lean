import Mathlib
import SqlFormat.Text.Count

/-!
# Decimal numbers

What the digits of a number stand for, and which texts are read as a number.

Results: `digitsValue_eq`, `Text.count?_eq_some_iff`.
-/

namespace SqlFormat

open Text

/-- The number that decimal digits are written for. -/
def decimalValue (ds : List Char) : Nat :=
  Nat.ofDigits 10 (ds.reverse.map fun d => d.toNat - '0'.toNat)

theorem digitsValue_eq (ds : List Char) : digitsValue ds = decimalValue ds := by
  unfold digitsValue decimalValue
  induction ds using List.reverseRecOn with
  | nil => rfl
  | append_singleton ds d ih =>
    rw [List.foldl_append, List.reverse_append, List.map_append, List.reverse_singleton,
      List.map_singleton, List.singleton_append, Nat.ofDigits_cons, ← ih]
    simp only [List.foldl_cons, List.foldl_nil]
    omega

namespace Text

/-- Characters that a number is written with: digits, with or without a plus sign before them. -/
inductive Numeral (n : Nat) : List Char → Prop
  | digits {ds : List Char} (hne : ds ≠ []) (hdigits : ∀ d ∈ ds, d.isDigit = true)
      (hvalue : decimalValue ds = n) : Numeral n ds
  | plus {ds : List Char} (hne : ds ≠ []) (hdigits : ∀ d ∈ ds, d.isDigit = true)
      (hvalue : decimalValue ds = n) : Numeral n ('+' :: ds)

/-- **What is read as a number**: a numeral whose number fits into 64 bits. -/
theorem count?_eq_some_iff {s : String} {n : Nat} :
    count? s = some n ↔ Numeral n s.toList ∧ n < 2 ^ 64 := by
  have hread : ∀ ds : List Char,
      (if !ds.isEmpty && ds.all Char.isDigit && digitsValue ds < UInt64.size then
        some (digitsValue ds) else none) = some n ↔
      (ds ≠ [] ∧ (∀ d ∈ ds, d.isDigit = true) ∧ decimalValue ds = n) ∧ n < 2 ^ 64 := by
    intro ds
    rw [digitsValue_eq, Option.ite_none_right_eq_some]
    simp only [Bool.and_eq_true, Bool.not_eq_true', List.isEmpty_eq_false_iff, List.all_eq_true,
      decide_eq_true_eq, Option.some.injEq]
    constructor
    · rintro ⟨⟨⟨hne, hdigits⟩, hlt⟩, rfl⟩
      exact ⟨⟨hne, hdigits, rfl⟩, hlt⟩
    · rintro ⟨⟨hne, hdigits, rfl⟩, hlt⟩
      exact ⟨⟨⟨hne, hdigits⟩, hlt⟩, rfl⟩
  unfold count?
  simp only
  split
  · next ds hs =>
    rw [hread, hs]
    refine and_congr_left fun _ => ⟨fun ⟨hne, hdigits, hvalue⟩ => .plus hne hdigits hvalue, ?_⟩
    rintro (⟨-, hdigits, -⟩ | ⟨hne, hdigits, hvalue⟩)
    · exact absurd (hdigits '+' List.mem_cons_self) (by decide)
    · exact ⟨hne, hdigits, hvalue⟩
  · next hs =>
    rw [hread]
    refine and_congr_left fun _ => ⟨fun ⟨hne, hdigits, hvalue⟩ => .digits hne hdigits hvalue, ?_⟩
    intro h
    generalize s.toList = cs at hs h
    cases h with
    | digits hne hdigits hvalue => exact ⟨hne, hdigits, hvalue⟩
    | plus => exact (hs _ rfl).elim

end Text

end SqlFormat

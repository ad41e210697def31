import Mathlib
import SqlFormat.Text.Ranges

/-!
# Stretches of codes

A set of characters is given by the codes at which membership changes. Two changes that follow each
other bound a stretch, and the set is the union of its stretches.

Results: `contains_iff_between`, `between_of_covers` (one set within another, decided in one walk over
both).
-/

namespace SqlFormat.Text

/-- A code that lies in a stretch. -/
def between (n : Nat) : List Nat → Bool
  | first :: last :: flips => (first ≤ n && n < last) || between n flips
  | _ => false

theorem exists_le_of_between {n : Nat} :
    ∀ flips : List Nat, between n flips = true → ∃ m ∈ flips, m ≤ n
  | [], h => by simp [between] at h
  | [_], h => by simp [between] at h
  | first :: last :: flips, h => by
    simp only [between, Bool.or_eq_true, Bool.and_eq_true, decide_eq_true_eq] at h
    rcases h with ⟨hfirst, -⟩ | h
    · exact ⟨first, by simp, hfirst⟩
    · obtain ⟨m, hm, hmn⟩ := exists_le_of_between flips h
      exact ⟨m, by simp [hm], hmn⟩

theorem odd_iff_between {n : Nat} :
    ∀ flips : List Nat, flips.Pairwise (· < ·) → flips.length % 2 = 0 →
      ((flips.takeWhile (· ≤ n)).length % 2 = 1 ↔ between n flips = true)
  | [], _, _ => by simp [between]
  | [_], _, heven => by simp at heven
  | first :: last :: flips, hsorted, heven => by
    obtain ⟨hfirst, hlast, hrest⟩ : _ ∧ _ ∧ _ := by simpa only [List.pairwise_cons] using hsorted
    have hlt : first < last := hfirst last (by simp)
    have heven' : flips.length % 2 = 0 := by simpa [Nat.add_assoc] using heven
    rw [between, Bool.or_eq_true, ← odd_iff_between flips hrest heven']
    by_cases hl : last ≤ n
    · have hf : first ≤ n := hlt.le.trans hl
      simp [hf, hl, Nat.not_lt.mpr hl, Nat.add_assoc]
    · have hnone : ¬between n flips = true := fun h => by
        obtain ⟨m, hm, hmn⟩ := exists_le_of_between flips h
        exact hl ((hlast m hm).le.trans hmn)
      rw [← odd_iff_between flips hrest heven'] at hnone
      by_cases hf : first ≤ n <;> simp [hf, hl, Nat.lt_of_not_le, hnone]

/-- The codes at which membership changes are in order, and the last of them ends a stretch. -/
def Ranges.Sorted (r : Ranges) : Prop :=
  r.flips.IsChain (· < ·) ∧ r.flips.length % 2 = 0

instance (r : Ranges) : Decidable r.Sorted :=
  inferInstanceAs (Decidable (_ ∧ _))

theorem Ranges.contains_iff_between {r : Ranges} (hr : r.Sorted) (c : Char) :
    r.contains c = true ↔ between c.toNat r.flips = true := by
  rw [contains, beq_iff_eq]
  exact odd_iff_between _ (List.isChain_iff_pairwise.mp hr.1) hr.2

/-- What is left after the stretches at the front that lie within two bounds. -/
def dropWithin (first last : Nat) : List Nat → List Nat
  | a :: b :: flips => if first ≤ a && b ≤ last then dropWithin first last flips else a :: b :: flips
  | flips => flips

/-- Every stretch of the second set lies within a stretch of the first. -/
def covers : List Nat → List Nat → Bool
  | first :: last :: flips, inner => covers flips (dropWithin first last inner)
  | _, inner => inner.isEmpty

theorem between_dropWithin {n first last : Nat} :
    ∀ inner : List Nat, between n inner = true →
      (first ≤ n ∧ n < last) ∨ between n (dropWithin first last inner) = true
  | [], h => by simp [between] at h
  | [_], h => by simp [between] at h
  | a :: b :: inner, h => by
    rw [dropWithin]
    split
    · next hin =>
      simp only [Bool.and_eq_true, decide_eq_true_eq] at hin
      simp only [between, Bool.or_eq_true, Bool.and_eq_true, decide_eq_true_eq] at h
      rcases h with ⟨ha, hb⟩ | h
      · exact .inl ⟨hin.1.trans ha, hb.trans_le hin.2⟩
      · exact between_dropWithin inner h
    · exact .inr h

theorem between_of_covers {n : Nat} :
    ∀ flips inner : List Nat, covers flips inner = true → between n inner = true →
      between n flips = true
  | first :: last :: flips, inner, hcovers, h => by
    rw [between, Bool.or_eq_true]
    rcases between_dropWithin inner h with hin | h
    · exact .inl (by simpa using hin)
    · exact .inr (between_of_covers flips _ hcovers h)
  | [], inner, hcovers, h => by
    obtain rfl : inner = [] := by simpa [covers] using hcovers
    exact h
  | [_], inner, hcovers, h => by
    obtain rfl : inner = [] := by simpa [covers] using hcovers
    exact h

theorem Ranges.contains_of_covers {r s : Ranges} (hr : r.Sorted) (hs : s.Sorted)
    (h : covers r.flips s.flips = true) {c : Char} (hc : s.contains c = true) :
    r.contains c = true :=
  (contains_iff_between hr c).mpr
    (between_of_covers _ _ h ((contains_iff_between hs c).mp hc))

/-- The codes that are not in a set that leaves out the least. -/
def Ranges.compl (r : Ranges) : Ranges :=
  ⟨0 :: (r.flips ++ [0x110000])⟩

theorem Ranges.contains_compl (r : Ranges) (c : Char) : r.compl.contains c = !r.contains c := by
  have hbound : ¬0x110000 ≤ c.toNat := by
    rcases c.valid with h | h
    · exact Nat.not_le.mpr (Nat.lt_trans h (by decide))
    · exact Nat.not_le.mpr h.2
  have hlast : (r.flips ++ [0x110000]).takeWhile (· ≤ c.toNat) = r.flips.takeWhile (· ≤ c.toNat) := by
    rw [List.takeWhile_append]
    split
    · next h =>
      rw [List.takeWhile_cons_of_neg (by simpa using hbound), List.append_nil]
      exact ((List.takeWhile_prefix _).eq_of_length h).symm
    · rfl
  rw [contains, contains, compl, List.takeWhile_cons_of_pos (by simp), hlast, List.length_cons]
  have := Nat.mod_two_eq_zero_or_one (r.flips.takeWhile (· ≤ c.toNat)).length
  rcases this with h | h <;> simp [Nat.add_mod, h]

/-- No code from the first to the last lies in a stretch. -/
def apart (first last : Int) : List Nat → Bool
  | start :: stop :: flips => (last < start || stop ≤ first) && apart first last flips
  | _ => true

theorem not_between_of_apart {n : Nat} {first last : Int} (hfirst : first ≤ n) (hlast : n ≤ last) :
    ∀ flips : List Nat, apart first last flips = true → between n flips = false
  | [], _ => rfl
  | [_], _ => rfl
  | start :: stop :: flips, h => by
    simp only [apart, Bool.and_eq_true, Bool.or_eq_true, decide_eq_true_eq] at h
    have hn : ¬(start ≤ n ∧ n < stop) := by omega
    simpa [between, not_between_of_apart hfirst hlast flips h.2] using hn

end SqlFormat.Text

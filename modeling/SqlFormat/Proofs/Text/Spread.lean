import Mathlib
import SqlFormat.Layout.Alignment
import SqlFormat.Proofs.Token.Lossless

/-!
# Spaces put into a text

`spread` puts spaces into a text at places that are given by their bytes. Putting in more spaces, at a
place behind all those used so far, spreads the text further.

Results: `spread_spread`, `insertSpaces?_spread`.
-/

namespace SqlFormat.Text

theorem byteLength_append (xs ys : List Char) :
    byteLength (xs ++ ys) = byteLength xs + byteLength ys := by
  induction xs with
  | nil => simp [byteLength]
  | cons x xs ih => simp [byteLength, ih, Nat.add_assoc]

theorem byteLength_spaces (count : Nat) : byteLength (List.replicate count ' ') = count := by
  induction count with
  | zero => rfl
  | succ count ih =>
    rw [List.replicate_succ, byteLength, ih, Nat.add_comm]
    rfl

/-- A text that stands from the byte `start` on, with `pads o` spaces put in at the byte `o`. -/
def spread (pads : Nat → Nat) (start : Nat) : List Char → List Char
  | [] => List.replicate (pads start) ' '
  | c :: cs => List.replicate (pads start) ' ' ++ c :: spread pads (start + c.utf8Size) cs

variable {pads : Nat → Nat} {start count : Nat} {xs ys : List Char}

theorem spread_eq (cs : List Char) (h : ∀ o, start ≤ o → pads o = 0) : spread pads start cs = cs := by
  induction cs generalizing start with
  | nil => simp [spread, h start le_rfl]
  | cons c cs ih =>
    have hrest : spread pads (start + c.utf8Size) cs = cs := ih fun o ho => h o (by omega)
    simp [spread, h start le_rfl, hrest]

/-- What is behind all spaces stays as it is. -/
theorem spread_append (ys : List Char) (h : ∀ o, start + byteLength xs < o → pads o = 0) :
    spread pads start (xs ++ ys) = spread pads start xs ++ ys := by
  induction xs generalizing start with
  | nil =>
    cases ys with
    | nil => simp
    | cons y ys =>
      have hrest : spread pads (start + y.utf8Size) ys = ys := by
        refine spread_eq ys fun o ho => h o ?_
        have := y.utf8Size_pos
        simp only [byteLength]
        omega
      simp [spread, hrest]
  | cons x xs ih =>
    have hrest : spread pads (start + x.utf8Size) (xs ++ ys) =
        spread pads (start + x.utf8Size) xs ++ ys :=
      ih fun o ho => h o (by simp only [byteLength]; omega)
    simp [spread, hrest]

/-- More spaces at the end. -/
theorem spread_update (xs : List Char) (count : Nat) {o : Nat} (ho : start + byteLength xs = o) :
    spread (Function.update pads o (pads o + count)) start xs =
      spread pads start xs ++ List.replicate count ' ' := by
  induction xs generalizing start with
  | nil =>
    obtain rfl : start = o := by simpa [byteLength] using ho
    simp [spread]
  | cons x xs ih =>
    have hne : start ≠ o := by
      have := x.utf8Size_pos
      simp only [byteLength] at ho
      omega
    have hplace : start + x.utf8Size + byteLength xs = o := by
      simp only [byteLength] at ho
      omega
    have hrest := ih hplace
    simp [spread, hne, hrest]

theorem spread_congr {pads' : Nat → Nat} (xs : List Char)
    (h : ∀ i, start ≤ i → pads i = pads' i) :
    spread pads start xs = spread pads' start xs := by
  induction xs generalizing start with
  | nil => rw [spread, spread, h start le_rfl]
  | cons x xs ih =>
    rw [spread, spread, h start le_rfl, ih fun i hi => h i (by omega)]

/-- Without spaces in a part of the text, that part stays. -/
theorem spread_front (ys : List Char)
    (h : ∀ o, start ≤ o → o < start + byteLength xs → pads o = 0) :
    spread pads start (xs ++ ys) = xs ++ spread pads (start + byteLength xs) ys := by
  induction xs generalizing start with
  | nil => rfl
  | cons x xs ih =>
    have hpos := x.utf8Size_pos
    have hrest : spread pads (start + x.utf8Size) (xs ++ ys) =
        xs ++ spread pads (start + x.utf8Size + byteLength xs) ys :=
      ih fun o ho hlt => h o (by omega) (by simp only [byteLength]; omega)
    have hzero : pads start = 0 := h start le_rfl (by simp only [byteLength]; omega)
    rw [List.cons_append, spread, hzero, hrest, byteLength, Nat.add_assoc]
    rfl

theorem spread_first {more : Nat → Nat} (cs : List Char) (h : ∀ o, start < o → more o = 0) :
    spread more start (spread pads start cs) = spread (fun o => pads o + more o) start cs := by
  have hsame := @spread_append more start [] (spread pads start cs) fun o ho => h o ho
  rw [List.nil_append] at hsame
  rw [hsame]
  cases cs with
  | nil => simp [spread, Nat.add_comm (pads start)]
  | cons c cs =>
    have hrest : spread (fun o => pads o + more o) (start + c.utf8Size) cs =
        spread pads (start + c.utf8Size) cs := by
      refine spread_congr cs fun o ho => ?_
      have := c.utf8Size_pos
      rw [h o (by omega), Nat.add_zero]
    simp only [spread, hrest, Nat.add_comm (pads start), List.replicate_add, List.append_assoc]

/-- Spaces that are put in before all those that are there add up with them. -/
theorem spread_spread {more : Nat → Nat} (cs : List Char)
    (h : ∀ o o', more o ≠ 0 → pads o' ≠ 0 → o ≤ o') :
    spread more start (spread pads start cs) = spread (fun o => pads o + more o) start cs := by
  induction cs generalizing start with
  | nil =>
    by_cases hstart : pads start = 0
    · simp [spread, hstart]
    · exact spread_first [] fun o ho => by_contra fun hne =>
        absurd (h o start hne hstart) (Nat.not_le.mpr ho)
  | cons c cs ih =>
    by_cases hstart : pads start = 0
    · simp [spread, hstart, ih]
    · exact spread_first (c :: cs) fun o ho => by_contra fun hne =>
        absurd (h o start hne hstart) (Nat.not_le.mpr ho)

end SqlFormat.Text

namespace SqlFormat.Layout

open Text

variable {pads : Nat → Nat} {xs ys : List Char}

theorem insertSpaces?_append (count : Nat) (xs ys : List Char) :
    insertSpaces? (byteLength xs) count (xs ++ ys) =
      some (xs ++ (List.replicate count ' ' ++ ys)) := by
  induction xs with
  | nil => cases ys <;> simp [insertSpaces?, byteLength]
  | cons x xs ih =>
    have hpos := x.utf8Size_pos
    have hrest : x.utf8Size + byteLength xs - x.utf8Size = byteLength xs := by omega
    rw [List.cons_append, byteLength, insertSpaces?, if_neg (by omega), if_pos (by omega), hrest, ih]
    rfl

/-- Spaces put in behind those that are there, where the places have moved by what was put in so
far. -/
theorem insertSpaces?_spread {shift : Nat} (count : Nat)
    (hpads : ∀ o, byteLength xs < o → pads o = 0)
    (hshift : byteLength (spread pads 0 (xs ++ ys)) = byteLength (xs ++ ys) + shift) :
    let more := Function.update pads (byteLength xs) (pads (byteLength xs) + count)
    insertSpaces? (byteLength xs + shift) count (spread pads 0 (xs ++ ys)) =
        some (spread more 0 (xs ++ ys)) ∧
      byteLength (spread more 0 (xs ++ ys)) = byteLength (xs ++ ys) + (shift + count) := by
  intro more
  have hmore : ∀ o, 0 + byteLength xs < o → more o = 0 := by
    intro o ho
    have hne : o ≠ byteLength xs := by omega
    exact (Function.update_of_ne hne _ _).trans (hpads o (by omega))
  have hold : spread pads 0 (xs ++ ys) = spread pads 0 xs ++ ys :=
    spread_append ys fun o ho => hpads o (by omega)
  have hnew : spread more 0 (xs ++ ys) =
      spread pads 0 xs ++ (List.replicate count ' ' ++ ys) := by
    rw [spread_append ys hmore, spread_update xs count (by omega), List.append_assoc]
  have hplace : byteLength xs + shift = byteLength (spread pads 0 xs) := by
    rw [hold, byteLength_append, byteLength_append] at hshift
    omega
  refine ⟨by rw [hold, hnew, hplace, insertSpaces?_append], ?_⟩
  rw [hnew, byteLength_append, byteLength_append, byteLength_spaces, byteLength_append]
  omega

end SqlFormat.Layout

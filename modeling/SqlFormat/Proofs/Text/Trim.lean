import Mathlib
import SqlFormat.Text.Blank

/-!
# Trimming

What trimming takes from the end of a text. A text is *trimmed* if it ends with no white space, and
*tidy* if it ends with no blank.

Results: `dropWhileEnd_spec`, `dropWhileEnd_append`, `dropWhileEnd_append_white`.
-/

namespace SqlFormat.Text

/-- White space only. -/
def AllWhite (g : List Char) : Prop :=
  ∀ c ∈ g, isWhite c = true

/-- The text ends with a character that is no blank. -/
def Tidy (t : List Char) : Prop :=
  ∃ c ∈ t.getLast?, isBlank c = false

theorem tidy_of_forall {t : List Char} (hne : t ≠ []) (h : ∀ c ∈ t, isBlank c = false) : Tidy t :=
  ⟨t.getLast hne, List.getLast?_eq_some_getLast hne, h _ (List.getLast_mem hne)⟩

theorem tidy_singleton {c : Char} (h : isBlank c = false) : Tidy [c] := ⟨c, rfl, h⟩

theorem Tidy.append {t : List Char} (h : Tidy t) (o : List Char) : Tidy (o ++ t) := by
  obtain ⟨c, hc, hb⟩ := h
  exact ⟨c, by rw [Option.mem_def, List.getLast?_append, hc, Option.some_or], hb⟩

theorem tidy_of_suffix {p t : List Char} (hp : Tidy p) (h : p <:+ t) : Tidy t := by
  obtain ⟨o, rfl⟩ := h
  exact hp.append o

/-! ## Trimmed texts -/

/-- The text ends with no white space. -/
def Trimmed (t : List Char) : Prop :=
  dropWhileEnd isWhite t = t

theorem dropWhileEnd_spec (p : Char → Bool) (cs : List Char) :
    ∃ w, cs = dropWhileEnd p cs ++ w ∧ ∀ c ∈ w, p c = true := by
  refine ⟨(cs.reverse.takeWhile p).reverse, ?_, ?_⟩
  · rw [dropWhileEnd, ← List.reverse_append, List.takeWhile_append_dropWhile, List.reverse_reverse]
  · intro c hc
    exact List.mem_takeWhile_imp (List.mem_reverse.mp hc)

theorem dropWhileEnd_cons {p : Char → Bool} {c : Char} (hc : p c = false) (cs : List Char) :
    dropWhileEnd p (c :: cs) = c :: dropWhileEnd p cs := by
  have hstop : ∀ a : List Char, (a ++ [c]).dropWhile p = a.dropWhile p ++ [c] := by
    intro a
    induction a with
    | nil => simp [hc]
    | cons d a ih =>
      cases hd : p d with
      | false => simp [hd]
      | true => simpa [hd] using ih
  simp [dropWhileEnd, hstop]

theorem dropWhileEnd_append_white (a : List Char) {w : List Char} (hw : AllWhite w) :
    dropWhileEnd isWhite (a ++ w) = dropWhileEnd isWhite a := by
  have hrev : ∀ c ∈ w.reverse, isWhite c = true := fun c hc => hw c (List.mem_reverse.mp hc)
  rw [dropWhileEnd, List.reverse_append, List.dropWhile_append_of_pos hrev, dropWhileEnd]

theorem dropWhileEnd_append {a t : List Char} (h : Trimmed t) (hne : t ≠ []) :
    dropWhileEnd isWhite (a ++ t) = a ++ t := by
  have hrev : t.reverse.dropWhile isWhite = t.reverse := by
    rw [← List.reverse_eq_iff]
    exact h
  rw [dropWhileEnd, List.reverse_append, List.dropWhile_append, hrev, if_neg (by simpa using hne)]
  simp

theorem dropWhileEnd_idem (t : List Char) : Trimmed (dropWhileEnd isWhite t) := by
  obtain ⟨w, ht, hw⟩ := dropWhileEnd_spec isWhite t
  have := dropWhileEnd_append_white (dropWhileEnd isWhite t) hw
  rw [← ht] at this
  exact this.symm

/-- Trimming stays within the last part of a text, if that part does not go away altogether. -/
theorem dropWhileEnd_append_of_ne {a t : List Char} (hne : dropWhileEnd isWhite t ≠ []) :
    dropWhileEnd isWhite (a ++ t) = a ++ dropWhileEnd isWhite t := by
  obtain ⟨w, ht, hw⟩ := dropWhileEnd_spec isWhite t
  conv_lhs => rw [ht, ← List.append_assoc, dropWhileEnd_append_white _ hw]
  exact dropWhileEnd_append (dropWhileEnd_idem t) hne

theorem Trimmed.of_append {a t : List Char} (h : Trimmed (a ++ t)) (hne : t ≠ []) : Trimmed t := by
  obtain ⟨w, ht, hw⟩ := dropWhileEnd_spec isWhite t
  by_cases hnil : dropWhileEnd isWhite t = []
  · -- the part would be white, and go away altogether
    have hwhite : AllWhite t := by
      rw [hnil, List.nil_append] at ht
      rwa [ht]
    obtain ⟨w', ha, -⟩ := dropWhileEnd_spec isWhite a
    rw [Trimmed, dropWhileEnd_append_white a hwhite] at h
    have hlength := congrArg List.length ha
    rw [h] at hlength
    have := List.length_pos_of_ne_nil hne
    simp only [List.length_append] at hlength
    omega
  · rw [Trimmed, dropWhileEnd_append_of_ne hnil] at h
    exact List.append_cancel_left h

theorem Trimmed.not_white {t : List Char} {c : Char} (h : Trimmed t) (hc : t.getLast? = some c) :
    isWhite c = false := by
  obtain ⟨init, rfl⟩ := List.getLast?_eq_some_iff.mp hc
  have hlast : Trimmed [c] := h.of_append (by simp)
  rw [Bool.eq_false_iff]
  intro hw
  have hnil : dropWhileEnd isWhite [c] = [] := by simp [dropWhileEnd, hw]
  rw [Trimmed, hnil] at hlast
  cases hlast

theorem not_isBlank_of_not_isWhite {c : Char} (h : isWhite c = false) : isBlank c = false := by
  rw [Bool.eq_false_iff]
  intro hb
  rw [isBlank_imp_isWhite hb] at h
  cases h

theorem Tidy.trimmed {t : List Char} (htidy : Tidy t)
    (hwhite : ∀ c ∈ t.getLast?, isWhite c = true → isBlank c = true) : Trimmed t := by
  obtain ⟨c, hc, hb⟩ := htidy
  have hw : isWhite c = false := by
    rw [Bool.eq_false_iff]
    intro hw
    rw [hwhite c hc hw] at hb
    cases hb
  rw [Trimmed, dropWhileEnd, List.reverse_eq_iff]
  rw [Option.mem_def, ← List.head?_reverse] at hc
  cases hr : t.reverse with
  | nil => rfl
  | cons d ds =>
    rw [hr, List.head?_cons, Option.some.injEq] at hc
    rw [List.dropWhile_cons_of_neg (by simp [hc, hw])]

theorem trimmed_of_getLast? {t : List Char} {c : Char} (hc : t.getLast? = some c)
    (hw : isWhite c = false) : Trimmed t :=
  Tidy.trimmed ⟨c, hc, not_isBlank_of_not_isWhite hw⟩ fun d hd hwhite => by
    rw [hc, Option.mem_some_iff] at hd
    rw [← hd, hw] at hwhite
    cases hwhite

end SqlFormat.Text

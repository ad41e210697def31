import Mathlib
import SqlFormat.KeywordCase
import SqlFormat.Token
import SqlFormat.Proofs.Text.Trim
import SqlFormat.Proofs.Text.White

/-!
# Visible texts

A text is visible if it is not white space only. Neither a change of case nor another spacing of its
words makes it invisible, and trimming leaves something of it.

Results: `Visible.apply`, `Visible.normalizePhrase`, `Visible.dropWhileEnd_ne_nil`.
-/

namespace SqlFormat.Text

/-- The text holds something else than white space. -/
def Visible (cs : List Char) : Prop :=
  ∃ c ∈ cs, isWhite c = false

instance (cs : List Char) : Decidable (Visible cs) :=
  decidable_of_iff (cs.any (!isWhite ·) = true) (by simp [Visible])

namespace Visible

variable {cs ds : List Char}

theorem of_sublist (h : Visible cs) (hsub : cs.Sublist ds) : Visible ds := by
  obtain ⟨c, hc, hw⟩ := h
  exact ⟨c, hsub.subset hc, hw⟩

theorem of_subset (h : Visible cs) (hsub : ∀ c ∈ cs, c ∈ ds) : Visible ds := by
  obtain ⟨c, hc, hw⟩ := h
  exact ⟨c, hsub c hc, hw⟩

theorem ne_nil (h : Visible cs) : cs ≠ [] := by
  obtain ⟨c, hc, -⟩ := h
  exact List.ne_nil_of_mem hc

/-- Trimming leaves the visible part of a text. -/
theorem dropWhileEnd_ne_nil (h : Visible cs) : dropWhileEnd isWhite cs ≠ [] := by
  intro hnil
  obtain ⟨w, hcs, hw⟩ := dropWhileEnd_spec isWhite cs
  obtain ⟨c, hc, hvisible⟩ := h
  rw [hcs, hnil, List.nil_append] at hc
  rw [hw c hc] at hvisible
  cases hvisible

/-! ## Case -/

theorem upper {s : String} (h : Visible s.toList) : Visible (Text.upper s).toList := by
  obtain ⟨c, hc, hw⟩ := h
  obtain ⟨d, hd⟩ := List.exists_mem_of_ne_nil _ (mapCase_ne_nil clean_upper c)
  refine ⟨d, ?_, mapCase_not_white clean_upper hw d hd⟩
  rw [Text.upper, String.toList_ofList]
  exact List.mem_flatMap.mpr ⟨c, hc, hd⟩

theorem lowerFrom (h : Visible cs) (before : List Char) : Visible (Text.lowerFrom before cs) := by
  induction cs generalizing before with
  | nil =>
    obtain ⟨c, hc, -⟩ := h
    cases hc
  | cons c cs ih =>
    obtain ⟨d, hd, hw⟩ := h
    rcases List.mem_cons.mp hd with rfl | hrest
    · -- no character becomes nothing
      have hne : lowerAt before d cs ≠ [] := by
        unfold lowerAt
        split
        · split <;> simp
        · exact mapCase_ne_nil clean_lower d
      obtain ⟨e, he⟩ := List.exists_mem_of_ne_nil _ hne
      exact ⟨e, List.mem_append_left _ he, lowerAt_not_white before cs hw e he⟩
    · exact (ih ⟨d, hrest, hw⟩ (c :: before)).of_sublist (List.sublist_append_right _ _)

theorem apply {s : String} (h : Visible s.toList) (case : KeywordCase) :
    Visible (case.apply s).toList := by
  cases case with
  | upper => exact h.upper
  | lower =>
    change Visible (Text.lower s).toList
    rw [Text.lower, String.toList_ofList]
    exact h.lowerFrom []
  | preserve => exact h
  | dialect => exact h

/-! ## Words -/

/-- No character but a blank is lost when a text is split into words. -/
theorem exists_mem_wordsFrom {word : List Char} {c : Char} (hblank : isBlank c = false)
    (hc : c ∈ word ∨ c ∈ cs) : ∃ w ∈ wordsFrom word cs, c ∈ w := by
  induction cs generalizing word with
  | nil =>
    obtain hc : c ∈ word := by simpa using hc
    rw [wordsFrom, if_neg (by simpa using List.ne_nil_of_mem hc)]
    exact ⟨word, List.mem_singleton_self word, hc⟩
  | cons d cs ih =>
    rw [wordsFrom]
    by_cases hd : isBlank d = true
    · have hrest : c ∈ word ∨ c ∈ cs := by
        rcases hc with hc | hc
        · exact .inl hc
        · refine .inr ((List.mem_cons.mp hc).resolve_left ?_)
          rintro rfl
          rw [hd] at hblank
          cases hblank
      rw [if_pos hd]
      by_cases hempty : word = []
      · rw [if_pos (by simp [hempty])]
        exact ih (.inr (hrest.resolve_left (by simp [hempty])))
      · rw [if_neg (by simpa using hempty)]
        rcases hrest with hc | hc
        · exact ⟨word, List.mem_cons_self, hc⟩
        · obtain ⟨w, hw, hcw⟩ : ∃ w ∈ wordsFrom [] cs, c ∈ w := ih (.inr hc)
          exact ⟨w, List.mem_cons_of_mem _ hw, hcw⟩
    · rw [if_neg hd]
      refine ih ?_
      rcases hc with hc | hc
      · exact .inl (List.mem_append_left _ hc)
      · rcases List.mem_cons.mp hc with rfl | hc
        · exact .inl (List.mem_append_right _ (List.mem_singleton_self c))
        · exact .inr hc

theorem mem_intercalate {sep w : List Char} {ws : List (List Char)} {c : Char} (hw : w ∈ ws)
    (hc : c ∈ w) : c ∈ sep.intercalate ws := by
  induction ws with
  | nil => cases hw
  | cons v ws ih =>
    rcases List.mem_cons.mp hw with rfl | hrest
    · cases ws with
      | nil => simpa using hc
      | cons u us =>
        rw [List.intercalate_cons_cons]
        simp [hc]
    · rw [List.intercalate_cons_of_ne_nil (List.ne_nil_of_mem hrest)]
      exact List.mem_append_right _ (ih hrest)

theorem normalizePhrase {s : String} (h : Visible s.toList) :
    Visible (SqlFormat.normalizePhrase s).toList := by
  unfold SqlFormat.normalizePhrase
  split
  · obtain ⟨c, hc, hw⟩ := h
    obtain ⟨w, hword, hcw⟩ := exists_mem_wordsFrom (not_isBlank_of_not_isWhite hw) (.inr hc)
    refine ⟨c, ?_, hw⟩
    rw [joinWith, String.toList_intercalate, List.map_map]
    refine mem_intercalate (w := w) ?_ hcw
    exact List.mem_map.mpr ⟨w, hword, String.toList_ofList⟩
  · exact h

end Visible

end SqlFormat.Text

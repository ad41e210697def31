import Mathlib
import SqlFormat.KeywordCase

/-!
# Letter case inside ASCII

Keywords are ASCII, and there the case of a text is the case of its letters: one letter goes to one
letter, and all forms of a letter have the same lower-case form.

Results: `KeywordCase.toList_apply`, `KeywordCase.keeps`.
-/

namespace SqlFormat

open Text

/-- What holds of each element of a list can be tested. -/
theorem Text.forall_mem_of_all {α : Type} {p : α → Prop} [DecidablePred p] {l : List α}
    (h : (l.all fun a => decide (p a)) = true) : ∀ a ∈ l, p a := by
  simpa using h

/-- The characters that keywords are made of. -/
def isKeywordChar (c : Char) : Bool :=
  c.isAlphanum || c == '_'

/-- What a case makes of a letter. -/
def KeywordCase.letter : KeywordCase → Char → Char
  | upper => Char.toUpper
  | lower => Char.toLower
  | preserve | dialect => id

/-- A property of the ASCII characters holds if it holds of their codes. -/
theorem ascii_induction {p : Char → Prop} (h : ∀ n < 128, p (Char.ofNat n)) {c : Char}
    (hc : c.toNat < 128) : p c := by
  have := h c.toNat hc
  rwa [Char.ofNat_toNat] at this

theorem isKeywordChar_lt {c : Char} (h : isKeywordChar c = true) : c.toNat < 128 := by
  simp only [isKeywordChar, Char.isAlphanum, Char.isAlpha, Char.isUpper, Char.isLower,
    Char.isDigit, Bool.or_eq_true, Bool.and_eq_true, decide_eq_true_eq, beq_iff_eq,
    UInt32.le_iff_toNat_le, ge_iff_le] at h
  have hval : c.toNat = c.val.toNat := rfl
  have h₁ : 'Z'.val.toNat = 90 := rfl
  have h₂ : 'z'.val.toNat = 122 := rfl
  have h₃ : '9'.val.toNat = 57 := rfl
  rcases h with ((h | h) | h) | rfl
  · omega
  · omega
  · omega
  · decide

/-- For an ASCII character only the first run of a table counts, if all else in it is outside
ASCII. -/
theorem mapCase_ascii {special : List (Nat × List Nat)} {run : CaseRun} {runs : List CaseRun}
    (hs : special.all (128 ≤ ·.1) = true) (hr : runs.all (128 ≤ ·.first) = true) {c : Char}
    (hc : c.toNat < 128) : mapCase special (run :: runs) c = mapCase [] [run] c := by
  have hlookup : special.lookup c.toNat = none := by
    rw [List.lookup_eq_none_iff]
    intro p hp
    have := List.all_eq_true.mp hs p hp
    simp only [decide_eq_true_eq] at this
    refine bne_iff_ne.mpr ?_
    omega
  have hfind : runs.find? (·.covers c.toNat) = none := by
    rw [List.find?_eq_none]
    intro r hmem hcov
    have := List.all_eq_true.mp hr r hmem
    simp only [decide_eq_true_eq] at this
    simp only [CaseRun.covers, Bool.and_eq_true, decide_eq_true_eq] at hcov
    omega
  simp only [mapCase, hlookup, List.lookup_nil, List.find?_cons, hfind, List.find?_nil]

theorem mapCase_upper {c : Char} (h : c.toNat < 128) :
    mapCase upperSpecial upperRuns c = [c.toUpper] :=
  (mapCase_ascii (by decide) (by decide) h).trans
    (ascii_induction (p := fun c => mapCase [] [⟨0x61, 0x7a, 1, -32⟩] c = [c.toUpper])
      (by decide) h)

theorem mapCase_lower {c : Char} (h : c.toNat < 128) :
    mapCase lowerSpecial lowerRuns c = [c.toLower] :=
  (mapCase_ascii (by decide) (by decide) h).trans
    (ascii_induction (p := fun c => mapCase [] [⟨0x41, 0x5a, 1, 32⟩] c = [c.toLower])
      (by decide) h)

theorem lowerFrom_ascii (before : List Char) {cs : List Char} (h : ∀ c ∈ cs, c.toNat < 128) :
    lowerFrom before cs = cs.map Char.toLower := by
  induction cs generalizing before with
  | nil => rfl
  | cons c cs ih =>
    have hc := h c (by simp)
    have hs : (c == 'Σ') = false := by
      refine beq_eq_false_iff_ne.mpr ?_
      rintro rfl
      exact absurd hc (by decide)
    rw [lowerFrom, lowerAt, hs, if_neg Bool.false_ne_true, mapCase_lower hc,
      ih _ fun d hd => h d (List.mem_cons_of_mem _ hd), List.map_cons, List.singleton_append]

/-- The case of an ASCII text is the case of its letters. -/
theorem KeywordCase.toList_apply (case : KeywordCase) {s : String}
    (h : ∀ c ∈ s.toList, c.toNat < 128) : (case.apply s).toList = s.toList.map case.letter := by
  cases case with
  | preserve => simp [apply, letter]
  | dialect => simp [apply, letter]
  | lower =>
    simp only [apply, Text.lower, String.toList_ofList, letter]
    exact lowerFrom_ascii [] h
  | upper =>
    simp only [apply, Text.upper, String.toList_ofList, letter]
    generalize s.toList = cs at h
    induction cs with
    | nil => rfl
    | cons c cs ih =>
      rw [List.flatMap_cons, mapCase_upper (h c (by simp)),
        ih fun d hd => h d (List.mem_cons_of_mem _ hd), List.map_cons, List.singleton_append]

/-- What a case leaves of an ASCII character. -/
structure KeywordCase.Keeps (case : KeywordCase) (c : Char) : Prop where
  toLower : (case.letter c).toLower = c.toLower
  isAlpha : (case.letter c).isAlpha = c.isAlpha
  isKeywordChar : isKeywordChar (case.letter c) = isKeywordChar c

theorem KeywordCase.keeps (case : KeywordCase) {c : Char} (h : c.toNat < 128) : case.Keeps c := by
  have key : ∀ n < 128, ((case.letter (Char.ofNat n)).toLower = (Char.ofNat n).toLower ∧
      (case.letter (Char.ofNat n)).isAlpha = (Char.ofNat n).isAlpha) ∧
      SqlFormat.isKeywordChar (case.letter (Char.ofNat n)) =
        SqlFormat.isKeywordChar (Char.ofNat n) := by
    cases case <;> decide
  have := ascii_induction (p := fun c => ((case.letter c).toLower = c.toLower ∧
    (case.letter c).isAlpha = c.isAlpha) ∧
      SqlFormat.isKeywordChar (case.letter c) = SqlFormat.isKeywordChar c) key h
  exact ⟨this.1.1, this.1.2, this.2⟩

/-- A letter in some case stays as it is in that case. -/
theorem KeywordCase.letter_letter (case : KeywordCase) {c : Char} (h : c.toNat < 128) :
    case.letter (case.letter c) = case.letter c := by
  cases case with
  | upper =>
    exact ascii_induction (p := fun c => c.toUpper.toUpper = c.toUpper) (by decide) h
  | lower =>
    exact ascii_induction (p := fun c => c.toLower.toLower = c.toLower) (by decide) h
  | _ => rfl

@[simp] theorem KeywordCase.letter_space (case : KeywordCase) : case.letter ' ' = ' ' := by
  cases case <;> rfl

theorem toLower_of_not_isUpper {c : Char} (h : ¬c.isUpper = true) : c.toLower = c := by
  have hval : ¬(65 ≤ c.val ∧ c.val ≤ 90) := by
    simpa [Char.isUpper, UInt32.le_iff_toNat_le] using h
  simp only [Char.toLower]
  split
  · next hc => exact absurd hc (by simpa [UInt32.le_iff_toNat_le] using hval)
  · rfl

/-- What is a keyword character in lower case was one before. -/
theorem isKeywordChar_of_toLower {c : Char} (h : isKeywordChar c.toLower = true) :
    isKeywordChar c = true := by
  by_cases hu : c.isUpper = true
  · simp [isKeywordChar, Char.isAlphanum, Char.isAlpha, hu]
  · rwa [toLower_of_not_isUpper hu] at h

theorem isAlpha_toLower (c : Char) : c.toLower.isAlpha = c.isAlpha := by
  by_cases hu : c.isUpper = true
  · have hk : isKeywordChar c = true := by
      simp [isKeywordChar, Char.isAlphanum, Char.isAlpha, hu]
    exact (KeywordCase.keeps .lower (isKeywordChar_lt hk)).isAlpha
  · rw [toLower_of_not_isUpper hu]

theorem isDigit_of_isAlpha {c : Char} (h : c.isAlpha = true) : c.isDigit = false := by
  simp only [Char.isAlpha, Char.isUpper, Char.isLower, Char.isDigit, Bool.or_eq_true,
    Bool.and_eq_true, decide_eq_true_eq, Bool.and_eq_false_iff, decide_eq_false_iff_not,
    UInt32.le_iff_toNat_le] at h ⊢
  simp at h ⊢
  omega

end SqlFormat

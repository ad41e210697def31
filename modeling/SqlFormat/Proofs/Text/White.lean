import Mathlib
import SqlFormat.Equivalence
import SqlFormat.Proofs.Text.Ascii
import SqlFormat.Proofs.Text.Ranges

/-!
# White space and letter case

White space has no case, and no letter gets its case from what stands beyond white space. So the
words of a text in lower case are the words of the text, each in lower case, however much white
space stands between them.

Results: `whiteWords_lower_append`, `lowerAt_congr`.
-/

namespace SqlFormat.Text

/-! ## The characters -/

/-- The codes of white space. -/
def whiteCodes : List Nat :=
  [0x09, 0x0a, 0x0b, 0x0c, 0x0d, 0x20, 0x85, 0xa0, 0x1680, 0x2000, 0x2001, 0x2002, 0x2003, 0x2004,
   0x2005, 0x2006, 0x2007, 0x2008, 0x2009, 0x200a, 0x2028, 0x2029, 0x202f, 0x205f, 0x3000]

theorem isWhite_iff {c : Char} : isWhite c = true ↔ c.toNat ∈ whiteCodes := by
  simp only [isWhite, whiteCodes, List.mem_cons, List.not_mem_nil, or_false, Bool.or_eq_true,
    Bool.and_eq_true, decide_eq_true_eq, beq_iff_eq]
  omega

/-- A property of white space holds if it holds of the codes. -/
theorem white_induction {p : Char → Prop} (h : ∀ n ∈ whiteCodes, p (Char.ofNat n)) {c : Char}
    (hc : isWhite c = true) : p c := by
  have := h c.toNat (isWhite_iff.mp hc)
  rwa [Char.ofNat_toNat] at this

/-- White space as a set of characters. -/
def whiteRanges : Ranges :=
  ⟨[0x09, 0x0e, 0x20, 0x21, 0x85, 0x86, 0xa0, 0xa1, 0x1680, 0x1681, 0x2000, 0x200b, 0x2028, 0x202a,
    0x202f, 0x2030, 0x205f, 0x2060, 0x3000, 0x3001]⟩

theorem between_whiteRanges : ∀ n ∈ whiteCodes, between n whiteRanges.flips = true := by
  decide

/-- A set whose stretches leave out white space, which one walk over both decides. -/
theorem not_contains_of_isWhite {r : Ranges}
    (h : r.compl.Sorted ∧ covers r.compl.flips whiteRanges.flips = true) {c : Char}
    (hc : isWhite c = true) : r.contains c = false := by
  have hwhite : whiteRanges.contains c = true :=
    (Ranges.contains_iff_between (by decide) c).mpr (between_whiteRanges _ (isWhite_iff.mp hc))
  have := Ranges.contains_of_covers h.1 (by decide) h.2 hwhite
  rwa [Ranges.contains_compl, Bool.not_eq_true'] at this

/-- No run of the lower-case table starts from white space. -/
theorem apart_lowerRuns :
    (lowerRuns.all fun r => apart r.first r.last whiteRanges.flips) = true := by
  decide +kernel

/-- White space is neither cased nor ignored by case, and is its own lower-case form. -/
theorem white_caseless {c : Char} (hc : isWhite c = true) :
    (casedRanges.contains c = false ∧ caseIgnorableRanges.contains c = false) ∧
      (c == 'Σ') = false ∧ mapCase lowerSpecial lowerRuns c = [c] := by
  refine ⟨⟨not_contains_of_isWhite (by decide +kernel) hc,
    not_contains_of_isWhite (by decide +kernel) hc⟩, ?_, ?_⟩
  · exact white_induction (p := fun c => (c == 'Σ') = false) (by decide) hc
  · have hspecial : lowerSpecial.lookup c.toNat = none :=
      white_induction (p := fun c => lowerSpecial.lookup c.toNat = none) (by decide) hc
    have hruns : lowerRuns.find? (·.covers c.toNat) = none := by
      refine List.find?_eq_none.mpr fun r hr hcovers => ?_
      simp only [CaseRun.covers, Bool.and_eq_true, decide_eq_true_eq] at hcovers
      have hapart := not_between_of_apart (n := c.toNat) (by omega) (by omega) _
        (List.all_eq_true.mp apart_lowerRuns r hr)
      rw [between_whiteRanges _ (isWhite_iff.mp hc)] at hapart
      cases hapart
    rw [mapCase, hspecial, hruns]

theorem not_isWhite_ofNat {n : Nat} (h : n ∉ whiteCodes) : isWhite (Char.ofNat n) = false := by
  rw [Bool.eq_false_iff, Ne, isWhite_iff]
  unfold Char.ofNat
  split
  · next hv =>
    have : (Char.ofNatAux n hv).toNat = n := by simp [Char.ofNatAux, Char.toNat]
    rwa [this]
  · decide

/-- The tables of a case that lead to no white space. -/
structure Clean (special : List (Nat × List Nat)) (runs : List CaseRun) : Prop where
  special : ∀ e ∈ special, e.2 ≠ [] ∧ ∀ n ∈ e.2, isWhite (Char.ofNat n) = false
  runs : (runs.all fun r => apart (r.first + r.shift) (r.last + r.shift) whiteRanges.flips) = true

theorem Clean.codes {special : List (Nat × List Nat)} {runs : List CaseRun} (h : Clean special runs)
    {n : Nat} {codes : List Nat} (hl : special.lookup n = some codes) :
    codes ≠ [] ∧ ∀ n ∈ codes, isWhite (Char.ofNat n) = false := by
  obtain ⟨before, after, rfl, -⟩ := List.lookup_eq_some_iff.mp hl
  exact h.special (n, codes) (by simp)

theorem clean_lower : Clean lowerSpecial lowerRuns := ⟨by decide, by decide +kernel⟩

theorem clean_upper : Clean upperSpecial upperRuns := ⟨by decide +kernel, by decide +kernel⟩

section

variable {special : List (Nat × List Nat)} {runs : List CaseRun} {c : Char}

theorem mapCase_not_white (h : Clean special runs) (hc : isWhite c = false) :
    ∀ d ∈ mapCase special runs c, isWhite d = false := by
  intro d hd
  unfold mapCase at hd
  split at hd
  · next codes hl =>
    obtain ⟨n, hn, rfl⟩ := List.mem_map.mp hd
    exact (h.codes hl).2 n hn
  · split at hd
    · next r hr =>
      obtain rfl := List.mem_singleton.mp hd
      have hcov := List.find?_some hr
      simp only [CaseRun.covers, Bool.and_eq_true, decide_eq_true_eq] at hcov
      refine not_isWhite_ofNat fun hw => ?_
      have hapart := List.all_eq_true.mp h.runs r (List.mem_of_find?_eq_some hr)
      have h0 : ((c.toNat + r.shift).toNat : Int) = c.toNat + r.shift ∨
          (c.toNat + r.shift).toNat = 0 := by omega
      rcases h0 with h0 | h0
      · have := not_between_of_apart (n := (c.toNat + r.shift).toNat) (by omega) (by omega) _ hapart
        rw [between_whiteRanges _ hw] at this
        cases this
      · rw [h0] at hw
        exact absurd hw (by decide)
    · obtain rfl := List.mem_singleton.mp hd
      exact hc

theorem mapCase_ne_nil (h : Clean special runs) (c : Char) : mapCase special runs c ≠ [] := by
  unfold mapCase
  split
  · next codes hl => simpa using (h.codes hl).1
  · split <;> simp

end

/-! ## Lower case between white space -/

/-- The characters up to the first white space. -/
def headWord (cs : List Char) : List Char :=
  cs.takeWhile fun c => !isWhite c

/-- Case looks no further than the next white space. -/
theorem casedFollows_headWord (cs : List Char) : casedFollows cs = casedFollows (headWord cs) := by
  induction cs with
  | nil => rfl
  | cons c cs ih =>
    cases hw : isWhite c with
    | true =>
      obtain ⟨⟨hcased, hign⟩, -, -⟩ := white_caseless hw
      simp [casedFollows, headWord, hw, hcased, hign]
    | false =>
      have hhead : headWord (c :: cs) = c :: headWord cs := by simp [headWord, hw]
      rw [hhead]
      cases hign : caseIgnorableRanges.contains c with
      | true =>
        simp only [casedFollows, List.dropWhile_cons, hign, if_true] at ih ⊢
        exact ih
      | false => simp [casedFollows, hign]

theorem lowerAt_congr {b b' a a' : List Char} (c : Char) (hb : headWord b = headWord b')
    (ha : headWord a = headWord a') : lowerAt b c a = lowerAt b' c a' := by
  unfold lowerAt
  rw [casedFollows_headWord b, casedFollows_headWord a, hb, ha, ← casedFollows_headWord b',
    ← casedFollows_headWord a']

theorem lowerAt_not_white (b a : List Char) {c : Char} (hc : isWhite c = false) :
    ∀ d ∈ lowerAt b c a, isWhite d = false := by
  unfold lowerAt
  split
  · split <;> (intro d hd; obtain rfl := List.mem_singleton.mp hd; decide)
  · exact mapCase_not_white clean_lower hc

theorem lowerAt_white (b a : List Char) {c : Char} (hc : isWhite c = true) :
    lowerAt b c a = [c] := by
  obtain ⟨-, hs, hm⟩ := white_caseless hc
  rw [lowerAt, hs, if_neg Bool.false_ne_true, hm]

/-- White space stays as it is, and what is after it starts a new word. -/
theorem lowerFrom_white (b : List Char) {g : List Char} (hg : ∀ c ∈ g, isWhite c = true)
    (cs : List Char) : lowerFrom b (g ++ cs) = g ++ lowerFrom (g.reverse ++ b) cs := by
  induction g generalizing b with
  | nil => rfl
  | cons c g ih =>
    rw [List.cons_append, lowerFrom, lowerAt_white _ _ (hg c (by simp)),
      ih _ fun d hd => hg d (List.mem_cons_of_mem _ hd)]
    simp

theorem headWord_append_white (a : List Char) {w : List Char} (hw : ∀ c ∈ w, isWhite c = true) :
    headWord (a ++ w) = headWord a := by
  induction a with
  | nil =>
    cases w with
    | nil => rfl
    | cons c w => simp [headWord, hw c (by simp)]
  | cons c a ih =>
    simp only [headWord, List.cons_append, List.takeWhile_cons] at ih ⊢
    rw [ih]

theorem lowerFrom_append_white (b a : List Char) {w : List Char}
    (hw : ∀ c ∈ w, isWhite c = true) : lowerFrom b (a ++ w) = lowerFrom b a ++ w := by
  induction a generalizing b with
  | nil =>
    have := lowerFrom_white b hw []
    simpa [lowerFrom] using this
  | cons c a ih =>
    rw [List.cons_append, lowerFrom, lowerFrom, ih,
      lowerAt_congr c rfl (headWord_append_white a hw), List.append_assoc]

/-! ## Words between white space -/

open SqlFormat.Equivalence (whiteWordsFrom)

theorem whiteWordsFrom_append (word : List Char) {w : List Char}
    (hw : ∀ c ∈ w, isWhite c = false) (rest : List Char) :
    whiteWordsFrom word (w ++ rest) = whiteWordsFrom (word ++ w) rest := by
  induction w generalizing word with
  | nil => simp
  | cons c w ih =>
    rw [List.cons_append, whiteWordsFrom, hw c (by simp), if_neg Bool.false_ne_true,
      ih _ fun d hd => hw d (List.mem_cons_of_mem _ hd), List.append_assoc, List.singleton_append]

theorem whiteWordsFrom_white {g : List Char} (hg : ∀ c ∈ g, isWhite c = true)
    (rest : List Char) : whiteWordsFrom [] (g ++ rest) = whiteWordsFrom [] rest := by
  induction g with
  | nil => rfl
  | cons c g ih =>
    rw [List.cons_append, whiteWordsFrom, if_pos (hg c (by simp)), List.isEmpty_nil, if_pos rfl,
      ih fun d hd => hg d (List.mem_cons_of_mem _ hd)]

theorem whiteWordsFrom_gap (word : List Char) {g : List Char} (hne : g ≠ [])
    (hg : ∀ c ∈ g, isWhite c = true) (rest : List Char) :
    whiteWordsFrom word (g ++ rest) = whiteWordsFrom word [] ++ whiteWordsFrom [] rest := by
  obtain ⟨c, g, rfl⟩ := List.exists_cons_of_ne_nil hne
  have htail := whiteWordsFrom_white (fun d hd => hg d (List.mem_cons_of_mem _ hd)) rest
  simp only [List.cons_append, whiteWordsFrom, hg c (by simp), if_true, htail]
  split <;> rfl

theorem whiteWordsFrom_end (word a : List Char) {w : List Char}
    (hw : ∀ c ∈ w, isWhite c = true) :
    whiteWordsFrom word (a ++ w) = whiteWordsFrom word a := by
  induction a generalizing word with
  | nil =>
    by_cases hne : w = []
    · rw [hne, List.append_nil]
    · have := whiteWordsFrom_gap word hne hw []
      simpa [whiteWordsFrom] using this
  | cons c a ih =>
    rw [List.cons_append, whiteWordsFrom, whiteWordsFrom, ih, ih]

/-- White space at the end of a text has no part in its words. -/
theorem whiteWords_lower_append (a : List Char) {w : List Char} (hw : ∀ c ∈ w, isWhite c = true) :
    whiteWordsFrom [] (lowerFrom [] (a ++ w)) = whiteWordsFrom [] (lowerFrom [] a) := by
  rw [lowerFrom_append_white [] a hw, whiteWordsFrom_end [] _ hw]

end SqlFormat.Text

import Mathlib
import SqlFormat.Proofs.Groups.Matching

/-!
# What the groups of a text depend on

The search for groups looks at brackets and at the tokens that may not stand in a group on one line. Of the
other tokens it takes the widths, and of those only where a group is measured: not behind the last
bracket, and not in a group with a token that breaks the line.

Results: `matchingClose?_congr`, `fits_congr`.
-/

namespace SqlFormat

/-- Tokens that the search for groups tells apart by their widths only. -/
structure Token.SameOutline (a b : Token) : Prop where
  isBracket : a.isBracket = b.isBracket
  text : a.isBracket = true → a.text = b.text
  breaksLine : a.breaksLine = b.breaksLine

/-- A bracket is as wide as its text. -/
theorem Token.SameOutline.width {a b : Token} (h : a.SameOutline b) (hbracket : a.isBracket = true) :
    a.width = b.width := by
  have hwidth : ∀ t : Token, t.isBracket = true → t.width = t.text.length + 1 := by
    intro t ht
    simp only [Token.isBracket, Bool.and_eq_true, Bool.or_eq_true, beq_iff_eq] at ht
    rcases ht.1 with hkind | hkind <;> simp [Token.width, hkind, TokenKind.isReserved]
  rw [hwidth a hbracket, hwidth b (h.isBracket ▸ hbracket), h.text hbracket]

namespace Groups

variable {tokens other : List Token} {i j : Nat}

theorem Scan.run_congr (h : List.Forall₂ Token.SameOutline tokens other) (scan : Scan) (k : Nat) :
    scan.run k tokens = scan.run k other := by
  induction h generalizing scan k with
  | nil => rfl
  | @cons a b as bs hab _ ih =>
    have hstep : scan.step k a = scan.step k b := by
      unfold Scan.step
      rw [← hab.isBracket]
      by_cases hbracket : a.isBracket = true
      · rw [hab.text hbracket]
      · rw [if_neg hbracket, if_neg hbracket]
    rw [run, run, hstep, ih]

theorem matchingClose?_congr (h : List.Forall₂ Token.SameOutline tokens other) (i : Nat) :
    (ofTokens tokens).matchingClose? i = (ofTokens other).matchingClose? i := by
  have hiff : ∀ j, (ofTokens tokens).matchingClose? i = some j ↔
      (ofTokens other).matchingClose? i = some j := by
    intro j
    rw [matchingClose?_eq_some_iff, matchingClose?_eq_some_iff, Scan.run_congr h]
  exact Option.ext hiff

/-- A group fits if nothing in it breaks the line and there is room for its width. -/
theorem fits_of_matchingClose? {w : Nat} (hclose : (ofTokens tokens).matchingClose? i = some j)
    (hw : (ofTokens tokens).width? i = some w) (available : Option Nat) :
    (ofTokens tokens).fits i available = true ↔
      (∀ t ∈ span tokens i j, t.breaksLine = false) ∧ ∀ room ∈ available, w ≤ room := by
  rw [fits_iff]
  refine ⟨?_, fun hfits => ⟨j, w, hclose, hw, hfits⟩⟩
  rintro ⟨j', w', hj', hw', hfits⟩
  obtain rfl := Option.some.inj (hclose.symm.trans hj')
  obtain rfl := Option.some.inj (hw.symm.trans hw')
  exact hfits

/-! ## Widths -/

/-- The second token is as wide as the first, unless that breaks the line. -/
def WideAs (a b : Token) : Prop :=
  a.breaksLine = false → a.width = b.width

theorem sum_width_congr (h : List.Forall₂ WideAs tokens other)
    (hcalm : ∀ t ∈ tokens, t.breaksLine = false) :
    (tokens.map Token.width).sum = (other.map Token.width).sum := by
  induction h with
  | nil => rfl
  | @cons a b as bs hab _ ih =>
    rw [List.map_cons, List.map_cons, List.sum_cons, List.sum_cons, hab (hcalm a (by simp)),
      ih fun t ht => hcalm t (List.mem_cons_of_mem _ ht)]

/-- The last token of all is in no group, unless it is a bracket. -/
theorem forall₂_wideAs_span (h : List.Forall₂ Token.SameOutline tokens other)
    (hwidth : List.Forall₂ WideAs tokens.dropLast other.dropLast)
    (hclose : (ofTokens tokens).matchingClose? i = some j) :
    List.Forall₂ WideAs (span tokens i j) (span other i j) := by
  obtain ⟨-, o, c, -, hc, hpartners⟩ := partners_of_matchingClose? hclose
  have hj : j < tokens.length := (List.getElem?_eq_some_iff.mp hc).1
  have hj' : j < other.length := h.length_eq ▸ hj
  have hlast : WideAs c other[j] := by
    have hcongr := (List.forall₂_iff_get.mp h).2 j hj hj'
    rw [List.get_eq_getElem, List.get_eq_getElem, (List.getElem?_eq_some_iff.mp hc).2] at hcongr
    exact fun _ => hcongr.width hpartners.closer
  have hinit : ∀ {ts : List Token}, j < ts.length → ts.take j = ts.dropLast.take j := by
    intro ts hts
    rw [List.dropLast_eq_take, List.take_take, min_eq_left (by omega)]
  have htake : List.Forall₂ WideAs (tokens.take (j + 1)) (other.take (j + 1)) := by
    rw [List.take_add_one, List.take_add_one, hc, List.getElem?_eq_getElem hj', hinit hj, hinit hj']
    exact List.rel_append (List.forall₂_take j hwidth) (.cons hlast .nil)
  exact List.forall₂_drop i htake

/-- **What a group depends on**: a group fits into the room there is if it does so in tokens of the same
outline, which are as wide where the room is limited. -/
theorem fits_congr (h : List.Forall₂ Token.SameOutline tokens other) {available : Option Nat}
    (hwidth : available = none ∨ List.Forall₂ WideAs tokens.dropLast other.dropLast) (i : Nat) :
    (ofTokens tokens).fits i available = (ofTokens other).fits i available := by
  have hsame := matchingClose?_congr h i
  cases hclose : (ofTokens tokens).matchingClose? i with
  | none => simp [fits, inlineWidth?, ← hsame, hclose]
  | some j =>
    have hclose' : (ofTokens other).matchingClose? i = some j := hsame ▸ hclose
    obtain ⟨w, hw, hcolumns⟩ := width?_eq hclose
    obtain ⟨w', hw', hcolumns'⟩ := width?_eq hclose'
    have hspan : List.Forall₂ Token.SameOutline (span tokens i j) (span other i j) :=
      List.forall₂_drop i (List.forall₂_take (j + 1) h)
    have hbreaks : (span tokens i j).map Token.breaksLine = (span other i j).map Token.breaksLine := by
      rw [← List.forall₂_eq_eq_eq, List.forall₂_map_left_iff, List.forall₂_map_right_iff]
      exact hspan.imp fun _ _ hab => hab.breaksLine
    have hcalm : (∀ t ∈ span tokens i j, t.breaksLine = false) ↔
        ∀ t ∈ span other i j, t.breaksLine = false := by
      rw [← List.forall_mem_map (P := (· = false)), hbreaks, List.forall_mem_map]
    rw [Bool.eq_iff_iff, fits_of_matchingClose? hclose hw, fits_of_matchingClose? hclose' hw', ← hcalm]
    refine and_congr_right fun hquiet => ?_
    rcases hwidth with rfl | hwidth
    · simp
    · have hsum := sum_width_congr (forall₂_wideAs_span h hwidth hclose) hquiet
      rw [← columns_eq, ← columns_eq, ← hcolumns, ← hcolumns', Nat.add_right_cancel_iff] at hsum
      rw [hsum]

end Groups

end SqlFormat

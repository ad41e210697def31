import Mathlib
import SqlFormat.Proofs.Token.Scan

/-!
# Literals and what follows them

A literal that is closed ends at its closing delimiter, whatever follows, as long as that is not the
delimiter once more. A literal that is not closed takes in the rest of the text; it stays open when
white space at its end is taken away or put there.

Results: `stringBody_closed`, `stringBody_unclosed` for quoted strings, `through_closed` and
`through_unclosed` for whatever ends with a fixed pattern.
-/

namespace SqlFormat.Scan

open Text

variable {style : StringStyle}

/-! ## Quoted strings -/

/-- No closing delimiter ends the string that this is the body of. -/
def unclosed (style : StringStyle) : List Char → Bool
  | [] => true
  | [c] => style.backslash && c == '\\' || c != style.closing
  | c :: d :: cs =>
    if style.backslash && c == '\\' then unclosed style cs
    else if c == style.closing then d == style.closing && unclosed style cs
    else unclosed style (d :: cs)

theorem stringBody_pos (style : StringStyle) (c : Char) (cs : List Char) :
    0 < stringBody style (c :: cs) := by
  cases cs with
  | nil => simp [stringBody]
  | cons d cs => simp only [stringBody]; split_ifs <;> omega

/-- A closed string ends where it did, unless its closing delimiter follows once more. -/
theorem stringBody_closed {a r r' : List Char} (h : stringBody style (a ++ r) = a.length)
    (hc : unclosed style a = false) (hr : r'.head? ≠ some style.closing) :
    stringBody style (a ++ r') = a.length := by
  fun_induction unclosed style a with
  | case1 => cases hc
  | case2 c =>
    obtain ⟨hb, he⟩ : (style.backslash && c == '\\') = false ∧ c = style.closing := by
      simpa only [Bool.or_eq_false_iff, bne_eq_false_iff_eq] using hc
    cases r' with
    | nil => rfl
    | cons d r' =>
      have hd : ¬(d == style.closing) = true := by simpa using hr
      rw [List.singleton_append, stringBody, hb, if_neg Bool.false_ne_true,
        if_pos (beq_iff_eq.mpr he), if_neg hd]
      rfl
  | case3 c d cs hb ih =>
    simp only [List.cons_append, stringBody, List.length_cons] at h ⊢
    rw [if_pos hb] at h ⊢
    have := ih (by omega) hc
    omega
  | case4 c d cs hb he ih =>
    simp only [List.cons_append, stringBody, List.length_cons] at h ⊢
    rw [if_neg hb, if_pos he] at h ⊢
    split at h
    · next hd =>
      rw [hd, Bool.true_and] at hc
      rw [if_pos hd]
      have := ih (by omega) hc
      omega
    · omega
  | case5 c d cs hb he ih =>
    simp only [List.cons_append, stringBody, List.length_cons] at h ⊢
    rw [if_neg hb, if_neg he] at h ⊢
    have := ih (by simp only [List.cons_append, List.length_cons]; omega) hc
    simp only [List.cons_append, List.length_cons] at this
    omega

/-- A closed string ends with its closing delimiter. -/
theorem getLast?_of_closed {a r : List Char} (h : stringBody style (a ++ r) = a.length)
    (hc : unclosed style a = false) : a.getLast? = some style.closing := by
  fun_induction unclosed style a with
  | case1 => cases hc
  | case2 c =>
    obtain ⟨_, he⟩ : (style.backslash && c == '\\') = false ∧ c = style.closing := by
      simpa only [Bool.or_eq_false_iff, bne_eq_false_iff_eq] using hc
    rw [he]
    rfl
  | case3 c d cs hb ih =>
    simp only [List.cons_append, stringBody, List.length_cons] at h
    rw [if_pos hb] at h
    have := ih (by omega) hc
    rw [List.getLast?_cons_cons, List.getLast?_cons, this]
    rfl
  | case4 c d cs hb he ih =>
    simp only [List.cons_append, stringBody, List.length_cons] at h
    rw [if_neg hb, if_pos he] at h
    split_ifs at h with hd
    · have := ih (by omega) (by simpa [hd] using hc)
      rw [List.getLast?_cons_cons, List.getLast?_cons, this]
      rfl
    · omega
  | case5 c d cs hb he ih =>
    simp only [List.cons_append, stringBody, List.length_cons] at h
    rw [if_neg hb, if_neg he, ← List.cons_append] at h
    have := ih (by simp only [List.length_cons]; omega) hc
    rw [List.getLast?_cons_cons, this]

/-- Nothing follows a string that is not closed. -/
theorem eq_nil_of_unclosed {a r : List Char} (h : stringBody style (a ++ r) = a.length)
    (hc : unclosed style a = true) : r = [] := by
  fun_induction unclosed style a with
  | case1 =>
    cases r with
    | nil => rfl
    | cons d r =>
      have := stringBody_pos style d r
      simp only [List.nil_append, List.length_nil] at h
      omega
  | case2 c =>
    cases r with
    | nil => rfl
    | cons d r =>
      have := stringBody_pos style d r
      simp only [List.cons_append, List.nil_append, stringBody, List.length_cons,
        List.length_nil] at h
      split_ifs at h with h₁ h₂ h₃
      · omega
      · omega
      · simp_all
      · omega
  | case3 c d cs hb ih =>
    simp only [List.cons_append, stringBody, List.length_cons] at h
    rw [if_pos hb] at h
    exact ih (by omega) hc
  | case4 c d cs hb he ih =>
    rw [Bool.and_eq_true] at hc
    simp only [List.cons_append, stringBody, List.length_cons] at h
    rw [if_neg hb, if_pos he, if_pos hc.1] at h
    exact ih (by omega) hc.2
  | case5 c d cs hb he ih =>
    simp only [List.cons_append, stringBody, List.length_cons] at h
    rw [if_neg hb, if_neg he] at h
    exact ih (by simp only [List.cons_append, List.length_cons]; omega) hc

theorem unclosed_of_forall {g : List Char} (hg : ∀ c ∈ g, c ≠ style.closing) :
    unclosed style g = true := by
  fun_induction unclosed style g with
  | case1 => rfl
  | case2 c => simp [hg c (by simp)]
  | case3 c d cs _ ih => exact ih fun x hx => hg x (by simp [hx])
  | case4 c d cs _ he => exact absurd (by simpa using he) (hg c (by simp))
  | case5 c d cs _ _ ih => exact ih fun x hx => hg x (List.mem_cons_of_mem _ hx)

/-- What a string that is not closed ends with may be replaced, as long as no closing delimiter is
in it. -/
theorem unclosed_append {b w g : List Char} (h : unclosed style (b ++ w) = true)
    (hw : ∀ c ∈ w, c ≠ style.closing) (hg : ∀ c ∈ g, c ≠ style.closing) :
    unclosed style (b ++ g) = true := by
  fun_induction unclosed style b with
  | case1 => exact unclosed_of_forall hg
  | case2 c =>
    have hc : (style.backslash && c == '\\') = true ∨ c ≠ style.closing := by
      cases w with
      | nil => simpa [unclosed] using h
      | cons d w =>
        have hd := hw d (by simp)
        simp only [List.cons_append, List.nil_append, unclosed] at h
        split_ifs at h with h₁ h₂
        · exact .inl h₁
        · simp_all
        · exact .inr (by simpa using h₂)
    cases g with
    | nil => simpa [unclosed] using hc
    | cons d g =>
      have hg' : ∀ c ∈ g, c ≠ style.closing := fun x hx => hg x (by simp [hx])
      simp only [List.cons_append, List.nil_append, unclosed]
      split_ifs with h₁ h₂
      · exact unclosed_of_forall hg'
      · simp_all
      · exact unclosed_of_forall hg
  | case3 c d cs hb ih =>
    simp only [List.cons_append, unclosed] at h ⊢
    rw [if_pos hb] at h ⊢
    exact ih h
  | case4 c d cs hb he ih =>
    simp only [List.cons_append, unclosed] at h ⊢
    rw [if_neg hb, if_pos he, Bool.and_eq_true] at h ⊢
    exact ⟨h.1, ih h.2⟩
  | case5 c d cs hb he ih =>
    simp only [List.cons_append, unclosed] at h ⊢
    rw [if_neg hb, if_neg he] at h ⊢
    exact ih h

theorem stringBody_unclosed {a : List Char} (h : unclosed style a = true) :
    stringBody style a = a.length := by
  fun_induction unclosed style a with
  | case1 => rfl
  | case2 c => rfl
  | case3 c d cs hb ih =>
    rw [stringBody, if_pos hb, ih h, List.length_cons, List.length_cons]
    omega
  | case4 c d cs hb he ih =>
    rw [Bool.and_eq_true] at h
    rw [stringBody, if_neg hb, if_pos he, if_pos h.1, ih h.2, List.length_cons, List.length_cons]
    omega
  | case5 c d cs hb he ih =>
    rw [stringBody, if_neg hb, if_neg he, ih h]
    simp only [List.length_cons]
    omega

/-- Whatever character follows a string that is not closed belongs to it. -/
theorem stringBody_unclosed_concat {a : List Char} (h : unclosed style a = true) (e : Char) :
    stringBody style (a ++ [e]) = a.length + 1 := by
  fun_induction unclosed style a with
  | case1 => rfl
  | case2 c =>
    simp only [List.cons_append, List.nil_append, stringBody, List.length_cons, List.length_nil]
    split_ifs with h₁ h₂ h₃
    · rfl
    · rfl
    · simp_all
    · rfl
  | case3 c d cs hb ih =>
    simp only [List.cons_append, stringBody, List.length_cons]
    rw [if_pos hb, ih h]
    omega
  | case4 c d cs hb he ih =>
    rw [Bool.and_eq_true] at h
    simp only [List.cons_append, stringBody, List.length_cons]
    rw [if_neg hb, if_pos he, if_pos h.1, ih h.2]
    omega
  | case5 c d cs hb he ih =>
    have := ih h
    simp only [List.cons_append, stringBody, List.length_cons] at this ⊢
    rw [if_neg hb, if_neg he, this]
    omega

/-! ## Patterns -/

/-- The text up to a pattern either has it at its end or is all there is. -/
theorem through_closed {p a r : List Char} (hp : p ≠ []) (h : through p (a ++ r) = a.length) :
    (r = [] ∧ ¬p <:+: a) ∨ (p <:+ a ∧ ∀ r', through p (a ++ r') = a.length) := by
  induction a with
  | nil =>
    left
    cases r with
    | nil => exact ⟨rfl, by simpa using hp⟩
    | cons c r =>
      simp only [List.nil_append, through, List.length_nil] at h
      split at h
      · exact absurd (List.length_eq_zero_iff.mp h) hp
      · omega
  | cons c a ih =>
    simp only [List.cons_append, through, List.length_cons] at h
    by_cases hpre : p.isPrefixOf (c :: (a ++ r)) = true
    · rw [if_pos hpre] at h
      have heq : p = c :: a := by
        have h₁ : p <+: c :: a ++ r := List.isPrefixOf_iff_prefix.mp hpre
        exact (List.prefix_of_prefix_length_le h₁ (List.prefix_append _ _) (by simp [h])).eq_of_length
          (by simp [h])
      right
      refine ⟨heq ▸ List.suffix_rfl, fun r' => ?_⟩
      have : p.isPrefixOf (c :: (a ++ r')) = true :=
        List.isPrefixOf_iff_prefix.mpr (heq ▸ List.prefix_append _ _)
      simp only [List.cons_append, through, this, if_true, h, List.length_cons]
    · rw [if_neg hpre] at h
      rcases ih (by omega) with ⟨rfl, hno⟩ | ⟨hsuffix, hall⟩
      · left
        refine ⟨rfl, fun hinf => ?_⟩
        rcases List.infix_cons_iff.mp hinf with h₁ | h₁
        · exact hpre (List.isPrefixOf_iff_prefix.mpr (by simpa using h₁))
        · exact hno h₁
      · right
        refine ⟨hsuffix.trans (List.suffix_cons c a), fun r' => ?_⟩
        have hlen := hsuffix.length_le
        have : ¬p.isPrefixOf (c :: (a ++ r')) = true := fun hp' => by
          have h₁ := List.isPrefixOf_iff_prefix.mp hp'
          have h₂ : p <+: c :: a :=
            List.prefix_of_prefix_length_le h₁ (List.prefix_append (c :: a) r')
              (by simp only [List.length_cons]; omega)
          exact hpre (List.isPrefixOf_iff_prefix.mpr (h₂.trans (List.prefix_append (c :: a) r)))
        rw [List.cons_append, through, if_neg this, hall r', List.length_cons]
        omega

theorem through_unclosed {p a : List Char} (h : ¬p <:+: a) : through p a = a.length := by
  induction a with
  | nil => rfl
  | cons c a ih =>
    have hpre : ¬p.isPrefixOf (c :: a) = true := fun hp =>
      h (List.isPrefixOf_iff_prefix.mp hp).isInfix
    have := ih fun hi => h (List.infix_cons_iff.mpr (.inr hi))
    rw [through, if_neg hpre, this, List.length_cons]
    omega

/-- Whatever character follows a text without the pattern belongs to it. -/
theorem through_concat {p a : List Char} (hp : p ≠ []) (h : ¬p <:+: a) (e : Char) :
    through p (a ++ [e]) = a.length + 1 := by
  induction a with
  | nil =>
    simp only [List.nil_append, through, List.length_nil]
    split
    · next hpre =>
      have := (List.isPrefixOf_iff_prefix.mp hpre).length_le
      have := List.length_pos_iff.mpr hp
      simp only [List.length_cons, List.length_nil] at *
      omega
    · rfl
  | cons c a ih =>
    have hrest := ih fun hi => h (List.infix_cons_iff.mpr (.inr hi))
    rw [List.cons_append, through]
    split
    · next hpre =>
      -- The pattern ends with the last character, for it does not occur before it.
      have hpre := List.isPrefixOf_iff_prefix.mp hpre
      have hle := hpre.length_le
      by_contra hne
      refine h (List.prefix_of_prefix_length_le hpre (List.prefix_append (c :: a) [e]) ?_).isInfix
      simp only [List.length_cons, List.length_append, List.length_nil] at hle hne ⊢
      omega
    · rw [hrest, List.length_cons]
      omega

/-- A pattern that occurs before a tail of other characters occurs without the tail. -/
theorem infix_of_infix_append {p b g : List Char} (hp : p ≠ []) (hg : ∀ c ∈ g, c ∉ p)
    (h : p <:+: b ++ g) : p <:+: b := by
  obtain ⟨s, t, hst⟩ := h
  rcases List.append_eq_append_iff.mp hst with ⟨u, hu, rfl⟩ | ⟨u, hu, hgt⟩
  · exact ⟨s, u, hu.symm⟩
  · rcases List.eq_nil_or_concat u with rfl | ⟨u, c, rfl⟩
    · exact ⟨s, [], by simpa using hu⟩
    · obtain ⟨p, d, rfl⟩ := (List.eq_nil_or_concat p).resolve_left hp
      have hcd : c = d := by
        have := congrArg List.getLast? hu
        simp only [List.concat_eq_append, ← List.append_assoc, List.getLast?_concat,
          Option.some.injEq] at this
        exact this.symm
      subst hcd
      exact absurd (by simp) (hg c (by rw [hgt]; simp))

end SqlFormat.Scan

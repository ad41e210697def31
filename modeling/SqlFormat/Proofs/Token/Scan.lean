import Mathlib
import SqlFormat.Proofs.Text.Ascii
import SqlFormat.Token.Lexer

/-!
# How far the scanners reach

Every scanner stays inside the text, and where a rule of the lexer calls it, it takes at least one
character.

Results: `lexeme_length_pos`, `lexeme_length_le`.
-/

namespace SqlFormat.Scan

open Text

theorem length_takeWhile_le (p : Char → Bool) (cs : List Char) :
    (cs.takeWhile p).length ≤ cs.length :=
  (List.takeWhile_prefix p).length_le

/-- A run ends before what does not belong to it. -/
theorem takeWhile_append_stop {p : Char → Bool} (a : List Char) {r : List Char}
    (h : r.head?.any p = false) : (a ++ r).takeWhile p = a.takeWhile p := by
  induction a with
  | nil =>
    cases r with
    | nil => rfl
    | cons c r => simpa using h
  | cons c a ih =>
    cases hc : p c with
    | false => simp [hc]
    | true => simp [hc, ih]

/-- A run that ends in the first of two texts does not depend on the second. -/
theorem takeWhile_append_le {p : Char → Bool} {a r : List Char}
    (h : ((a ++ r).takeWhile p).length ≤ a.length) : (a ++ r).takeWhile p = a.takeWhile p := by
  induction a with
  | nil => simpa using h
  | cons c a ih =>
    cases hc : p c with
    | false => simp [hc]
    | true =>
      simp only [List.cons_append, List.takeWhile_cons, hc, if_true, List.length_cons,
        Nat.add_le_add_iff_right] at h ⊢
      rw [ih h]

/-- A run that is exactly the first of two texts. -/
theorem takeWhile_append_eq {p : Char → Bool} {a r : List Char}
    (h : ((a ++ r).takeWhile p).length = a.length) :
    (∀ c ∈ a, p c = true) ∧ r.head?.any p = false := by
  induction a with
  | nil =>
    cases r with
    | nil => simp
    | cons c r =>
      cases hc : p c with
      | false => simp [hc]
      | true => simp [hc] at h
  | cons c a ih =>
    cases hc : p c with
    | false => simp [hc] at h
    | true =>
      simp only [List.cons_append, List.takeWhile_cons, hc, if_true, List.length_cons,
        Nat.add_right_cancel_iff] at h
      obtain ⟨ha, hr⟩ := ih h
      exact ⟨fun d hd => (List.mem_cons.mp hd).elim (· ▸ hc) (ha d), hr⟩

theorem head?_drop_takeWhile (p : Char → Bool) (cs : List Char) :
    (cs.drop (cs.takeWhile p).length).head?.any p = false := by
  induction cs with
  | nil => rfl
  | cons c cs ih =>
    cases hp : p c with
    | false => simp [hp]
    | true =>
      rw [List.takeWhile_cons_of_pos hp, List.length_cons, List.drop_succ_cons]
      exact ih

/-! ## Words and numbers -/

theorem word_le (cs : List Char) : word cs ≤ cs.length := by
  cases cs with
  | nil => simp [word]
  | cons c cs =>
    simp only [word, List.length_cons]
    have := length_takeWhile_le (fun d => isWordChar d || d == '$') cs
    split <;> omega

theorem word_pos {cs : List Char} (h : cs.head?.any isWordChar = true) : 0 < word cs := by
  cases cs with
  | nil => simp at h
  | cons c cs =>
    simp only [List.head?_cons, Option.any_some] at h
    simp only [word, h, if_true]
    omega

theorem isWordChar_of_isWordStart {c : Char} (h : isWordStart c = true) : isWordChar c = true := by
  simp only [isWordStart, Bool.or_eq_true] at h
  simp only [isWordChar, Char.isAlphanum, Bool.or_eq_true]
  tauto

theorem isWordChar_of_isDigit {c : Char} (h : c.isDigit = true) : isWordChar c = true := by
  simp [isWordChar, Char.isAlphanum, h]

theorem blanks_le (cs : List Char) : blanks cs ≤ cs.length :=
  length_takeWhile_le _ _

theorem digits_le (cs : List Char) : digits cs ≤ cs.length :=
  length_takeWhile_le _ _

theorem fraction_le (cs : List Char) : fraction cs ≤ cs.length := by
  unfold fraction
  split
  · omega
  · next cs _ =>
    have := digits_le cs
    simp only [List.length_cons]
    omega
  · omega

theorem exponent_le (cs : List Char) : exponent cs ≤ cs.length := by
  cases cs with
  | nil => simp [exponent]
  | cons e cs =>
    simp only [exponent, List.length_cons]
    generalize hs : (if cs.head?.any fun c => c == '+' || c == '-' then 1 else 0) = sign
    split
    · have hd := digits_le (cs.drop sign)
      have hsign : sign ≤ cs.length := by
        cases cs with
        | nil => simp at hs; omega
        | cons d ds => simp only [List.length_cons]; split at hs <;> omega
      simp only [List.length_drop] at hd
      split <;> omega
    · omega

theorem decimal_le (cs : List Char) : decimal cs ≤ cs.length := by
  simp only [decimal]
  have h₁ := digits_le cs
  have h₂ := fraction_le (cs.drop (digits cs))
  have h₃ := exponent_le (cs.drop (digits cs + fraction (cs.drop (digits cs))))
  simp only [List.length_drop] at h₂ h₃
  omega

theorem radixNumber?_le {cs : List Char} {n : Nat} (h : radixNumber? cs = some n) :
    0 < n ∧ n ≤ cs.length := by
  unfold radixNumber? at h
  split at h
  · next radix d cs =>
    split at h
    · cases h
      have := length_takeWhile_le (fun c => isRadixDigit radix c || c == '_') cs
      simp only [List.length_cons]
      omega
    · cases h
  · cases h

theorem number_le (cs : List Char) : number cs ≤ cs.length := by
  unfold number
  cases h : radixNumber? cs with
  | none => exact decimal_le cs
  | some n => exact (radixNumber?_le h).2

/-- A number takes a digit at the head of the text, and a dot that a digit follows. -/
theorem number_pos {cs : List Char}
    (h : cs.head?.any Char.isDigit = true ∨ ∃ d ds, cs = '.' :: d :: ds ∧ d.isDigit = true) :
    0 < number cs := by
  unfold number
  cases hr : radixNumber? cs with
  | some n => exact (radixNumber?_le hr).1
  | none =>
    simp only [Option.getD_none, decimal]
    rcases h with h | ⟨d, ds, rfl, hd⟩
    · cases cs with
      | nil => simp at h
      | cons c cs =>
        simp only [List.head?_cons, Option.any_some] at h
        simp only [digits, List.takeWhile_cons, h, Bool.true_or, if_true, List.length_cons]
        omega
    · have hne : d ≠ '.' := by rintro rfl; simp [Char.isDigit] at hd
      have hz : digits ('.' :: d :: ds) = 0 := by simp [digits, Char.isDigit]
      have hf : fraction ('.' :: d :: ds) = 1 + digits (d :: ds) := by
        unfold fraction
        split
        · next heq => cases heq; exact absurd rfl hne
        · next heq => cases heq; rfl
        · next h₁ => exact absurd rfl (h₁ _)
      rw [hz, List.drop_zero, hf]
      omega

/-! ## Strings, comments and operators -/

theorem stringBody_le (style : StringStyle) (cs : List Char) : stringBody style cs ≤ cs.length := by
  fun_induction stringBody style cs <;> simp_all <;> omega

theorem string_le (style : StringStyle) {cs : List Char} (h : cs ≠ []) :
    string style cs ≤ cs.length := by
  cases cs with
  | nil => exact absurd rfl h
  | cons c cs =>
    have := stringBody_le style cs
    simp only [string, List.drop_succ_cons, List.drop_zero, List.length_cons]
    omega

theorem string_pos (style : StringStyle) (cs : List Char) : 0 < string style cs := by
  simp only [string]
  omega

theorem through_le (pattern cs : List Char) : through pattern cs ≤ cs.length := by
  induction cs with
  | nil => simp [through]
  | cons c cs ih =>
    simp only [through, List.length_cons]
    split
    · next h => exact (List.isPrefixOf_iff_prefix.mp h).length_le
    · omega

theorem isPrefix_of_dollarTag? {cs tag : List Char} (h : dollarTag? cs = some tag) : tag <+: cs := by
  unfold dollarTag? at h
  split at h
  · next cs =>
    simp only at h
    split at h
    · next hc =>
      cases h
      simp only [Bool.and_eq_true, beq_iff_eq] at hc
      set name := cs.takeWhile fun c => c.isAlphanum || c == '_' with hname
      have hcs : cs = name ++ cs.drop name.length :=
        (List.prefix_iff_eq_append.mp (List.takeWhile_prefix _)).symm
      obtain ⟨rest, hrest⟩ : ∃ rest, cs.drop name.length = '$' :: rest := by
        cases hd : cs.drop name.length with
        | nil => simp [hd] at hc
        | cons d ds =>
          rw [hd] at hc
          simp only [List.head?_cons, Option.some.injEq] at hc
          exact ⟨ds, by rw [hc.1]⟩
      refine ⟨rest, ?_⟩
      rw [hrest] at hcs
      conv_rhs => rw [hcs]
      simp
    · cases h
  · cases h

theorem dollarString?_le {cs : List Char} {n : Nat} (h : dollarString? cs = some n) :
    0 < n ∧ n ≤ cs.length := by
  simp only [dollarString?, Option.map_eq_some_iff] at h
  obtain ⟨tag, htag, rfl⟩ := h
  have hp := (isPrefix_of_dollarTag? htag).length_le
  have ht := through_le tag (cs.drop tag.length)
  have hpos : 0 < tag.length := by
    unfold dollarTag? at htag
    split at htag
    · simp only at htag
      split at htag
      · cases htag; simp
      · cases htag
    · cases htag
  simp only [List.length_drop] at ht
  omega

theorem lineComment_le (cs : List Char) : lineComment cs ≤ cs.length :=
  length_takeWhile_le _ _

theorem not_mem_take_lineComment (cs : List Char) : '\n' ∉ cs.take (lineComment cs) := by
  rw [lineComment, ← List.prefix_iff_eq_take.mp (List.takeWhile_prefix _)]
  intro hmem
  simpa using List.mem_takeWhile_imp hmem

theorem blockComment_le {cs : List Char} (h : startsBlockComment cs = true) :
    blockComment cs ≤ cs.length := by
  have hp := (List.isPrefixOf_iff_prefix.mp h).length_le
  have ht := through_le ['*', '/'] (cs.drop 2)
  simp only [List.length_cons, List.length_nil, List.length_drop, blockComment] at hp ht ⊢
  omega

theorem compoundOperator_le (cs : List Char) : compoundOperator cs ≤ cs.length := by
  have hlen : ∀ ops : List String, ∀ n, (∀ op ∈ ops, op.toList.length = n) →
      ops.any (·.toList.isPrefixOf cs) = true → n ≤ cs.length := by
    intro ops n hn h
    obtain ⟨op, hop, hp⟩ := List.any_eq_true.mp h
    have := (List.isPrefixOf_iff_prefix.mp hp).length_le
    rw [hn op hop] at this
    exact this
  unfold compoundOperator
  split
  · next h => exact hlen tripleOperators 3 (by simp [tripleOperators]) h
  · split
    · next h => exact hlen doubleOperators 2 (by simp [doubleOperators]) h
    · omega

end SqlFormat.Scan

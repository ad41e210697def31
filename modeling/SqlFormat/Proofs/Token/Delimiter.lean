import Mathlib
import SqlFormat.Proofs.Token.Rules

/-!
# What the first characters of a text rule out

The delimiters of all dialects are a few ASCII characters, none of which is a letter, a digit or a
blank. So most rules of the lexer are ruled out by the first character of the text, and the others
by the first two.

Results: `Bare.of_head`, `comment?_none`, `dollarString?_none`, `prefixedString?_none`.
-/

namespace SqlFormat

open Text

/-! ## The delimiters of the dialects -/

/-- What is common to the delimiters of all dialects. -/
structure Lexicon.Delimits (lexicon : Lexicon) : Prop where
  opening : ∀ s ∈ lexicon.strings, s.opening ∈ ['\x27', '\x22', '\x60', '[']
  closing : ∀ s ∈ lexicon.strings, s.closing ∈ ['\x27', '\x22', '\x60'] ∨
    (s.closing = ']' ∧ lexicon.bracketParens = false)
  letters : ∀ p ∈ lexicon.prefixedStrings, p.1.isAlpha = true
  indexed : ∀ c ∈ lexicon.placeholders.indexed, c ∈ ['?', '$']
  named : ∀ c ∈ lexicon.placeholders.named, c ∈ [':', '@', '$']
  sigil : ∀ c ∈ lexicon.variablePrefixes, c = '@' ∧ c ∉ lexicon.placeholders.named
  dollar : lexicon.dollarQuotes = true → '$' ∉ lexicon.placeholders.named

theorem Dialect.delimits (dialect : Dialect) : dialect.lexicon.Delimits := by
  cases dialect <;>
    refine ⟨forall_mem_of_all ?_, forall_mem_of_all ?_, forall_mem_of_all ?_, forall_mem_of_all ?_,
      forall_mem_of_all ?_, forall_mem_of_all ?_, ?_⟩ <;> decide

namespace Lexer

variable {lexicon : Lexicon} {memory : Memory} {c : Char} {cs : List Char}

theorem stringStyle?_eq_some {style : StringStyle} (h : lexicon.stringStyle? c = some style) :
    style ∈ lexicon.strings ∧ style.opening = c :=
  ⟨List.mem_of_find?_eq_some h, by simpa using List.find?_some h⟩

/-- No string starts with a character that is none of the delimiters. -/
theorem stringStyle?_none (hd : lexicon.Delimits)
    (hc : c ∉ ['\x27', '\x22', '\x60', '[']) : lexicon.stringStyle? c = none := by
  cases h : lexicon.stringStyle? c with
  | none => rfl
  | some style =>
    obtain ⟨hmem, rfl⟩ := stringStyle?_eq_some h
    exact absurd (hd.opening _ hmem) hc

/-! ## Rules that do not apply -/

theorem quotedString?_cons : quotedString? lexicon (c :: cs) = none ↔
    lexicon.stringStyle? c = none := by
  simp only [quotedString?, List.head?_cons, Option.bind_eq_bind, Option.bind_some]
  cases lexicon.stringStyle? c <;> simp

/-- A comment starts with `-`, `#` or `/`. -/
theorem comment?_none_of_head {dialect : Dialect} (hc : c ∉ ['-', '#', '/']) :
    comment? dialect.lexicon (c :: cs) = none := by
  have hl : ¬dialect.lexicon.startsLineComment (c :: cs) = true := by
    rw [startsLineComment_iff]
    rintro (⟨_, rest, h⟩ | ⟨_, rest, h⟩) <;>
      (obtain rfl := (List.cons.inj h).1; simp at hc)
  have hb : ¬Scan.startsBlockComment (c :: cs) = true := by
    intro h
    obtain ⟨rest, h⟩ := List.isPrefixOf_iff_prefix.mp h
    obtain rfl := (List.cons.inj h).1
    simp at hc
  rw [comment?, if_neg hl, if_neg hb]

theorem comment?_eq_none {text : List Char} : comment? lexicon text = none ↔
    lexicon.startsLineComment text = false ∧ Scan.startsBlockComment text = false := by
  unfold comment?
  split
  · next h => simp [h]
  · next h => split <;> simp_all

/-- A text that starts no comment still starts none before another text, unless its one character is
the first of the two that start one. -/
theorem comment?_transfer {dialect : Dialect} {t r r' : List Char} (hne : t ≠ [])
    (h : comment? dialect.lexicon (t ++ r) = none)
    (hline : t = ['-'] → r'.head? ≠ some '-') (hblock : t = ['/'] → r'.head? ≠ some '*') :
    comment? dialect.lexicon (t ++ r') = none := by
  -- Only two characters decide, so one of `t` and one of what follows it at most.
  have hpre : ∀ a b : Char, (t = [a] → r'.head? ≠ some b) → [a, b] <+: t ++ r' →
      [a, b] <+: t ++ r := by
    intro a b hstop hp
    cases t with
    | nil => exact absurd rfl hne
    | cons c t =>
      cases t with
      | nil =>
        cases r' with
        | nil => simp at hp
        | cons d r' =>
          simp only [List.cons_append, List.nil_append, List.cons_prefix_cons] at hp
          obtain ⟨rfl, rfl, _⟩ := hp
          exact absurd rfl (hstop rfl)
      | cons d t =>
        simp only [List.cons_append, List.cons_prefix_cons, List.nil_prefix, and_true] at hp ⊢
        exact hp
  rw [comment?_eq_none] at h ⊢
  constructor
  · rw [Bool.eq_false_iff, Ne, startsLineComment_iff]
    rintro (⟨hmem, hp⟩ | ⟨hmem, hp⟩)
    · exact Bool.eq_false_iff.mp h.1
        ((startsLineComment_iff dialect _).mpr (.inl ⟨hmem, hpre _ _ hline hp⟩))
    · refine Bool.eq_false_iff.mp h.1
        ((startsLineComment_iff dialect _).mpr (.inr ⟨hmem, ?_⟩))
      obtain ⟨c, t, rfl⟩ := List.exists_cons_of_ne_nil hne
      simpa using hp
  · rw [Bool.eq_false_iff]
    intro hp
    exact Bool.eq_false_iff.mp h.2
      (List.isPrefixOf_iff_prefix.mpr (hpre _ _ hblock (List.isPrefixOf_iff_prefix.mp hp)))

theorem dollarString?_none_of_head (hc : c ≠ '$') : dollarString? lexicon (c :: cs) = none := by
  unfold dollarString?
  split
  · unfold Scan.dollarString? Scan.dollarTag?
    split
    · next heq => exact absurd (List.cons.inj heq).1 hc
    · rfl
  · rfl

theorem prefixedString?_none_of_head (hd : lexicon.Delimits) (hc : c.isAlpha = false) :
    prefixedString? lexicon (c :: cs) = none := by
  unfold prefixedString?
  split
  · next letter ds heq =>
    rw [(List.cons.inj heq).1] at hc
    cases hl : lexicon.prefixedStrings.lookup letter with
    | none => rfl
    | some b =>
      obtain ⟨l₁, l₂, hmem, _⟩ := List.lookup_eq_some_iff.mp hl
      have := hd.letters (letter, b) (by rw [hmem]; simp)
      rw [this] at hc
      cases hc
  · rfl

theorem prefixedString?_none_of_second (hc : cs.head? ≠ some '\x27') :
    prefixedString? lexicon (c :: cs) = none := by
  unfold prefixedString?
  split
  · next letter ds heq =>
    obtain ⟨-, rfl⟩ := List.cons.inj heq
    exact absurd rfl hc
  · rfl

theorem indexedPlaceholder?_none_of_head (hc : c ∉ lexicon.placeholders.indexed) :
    indexedPlaceholder? lexicon memory (c :: cs) = none := by
  rw [indexedPlaceholder?, if_neg (by simpa using hc)]

theorem namedPlaceholder?_none_of_head (hc : c ∉ lexicon.placeholders.named) :
    namedPlaceholder? lexicon (c :: cs) = none := by
  rw [namedPlaceholder?, if_neg (by simpa using hc)]

theorem sessionVariable?_none_of_head (hc : c ∉ lexicon.variablePrefixes) :
    sessionVariable? lexicon (c :: cs) = none := by
  rw [sessionVariable?, if_neg (by simpa using hc)]

/-- The characters that start none of the constructs that are looked for before words, or only in
company. -/
theorem Bare.of_head {dialect : Dialect} (hb : isBlank c = false) (hcom : c ∉ ['-', '#', '/'])
    (hdollar : c ≠ '$') (hq : c ∉ ['\x27', '\x22', '\x60', '['])
    (hp : prefixedString? dialect.lexicon (c :: cs) = none) : Bare dialect.lexicon (c :: cs) where
  blanks := blanks?_eq_none.mpr hb
  comment := comment?_none_of_head hcom
  dollar := dollarString?_none_of_head hdollar
  quoted := quotedString?_cons.mpr (stringStyle?_none dialect.delimits hq)
  prefixed := hp

/-- What words start with is no delimiter. -/
theorem isWordStart_not_mem (hc : Scan.isWordStart c = true) {l : List Char}
    (hl : l.all (!Scan.isWordStart ·) = true) : c ∉ l := by
  intro hmem
  have := List.all_eq_true.mp hl c hmem
  simp [hc] at this

theorem Bare.of_word {dialect : Dialect} (hc : Scan.isWordStart c = true)
    (hq : cs.head? ≠ some '\x27') : Bare dialect.lexicon (c :: cs) := by
  have hne : ∀ d, Scan.isWordStart d = false → c ≠ d := by
    rintro d hd rfl
    rw [hc] at hd
    cases hd
  refine .of_head ?_ (isWordStart_not_mem hc (by decide)) (hne '$' (by decide))
    (isWordStart_not_mem hc (by decide)) (prefixedString?_none_of_second hq)
  cases hb : isBlank c with
  | false => rfl
  | true =>
    simp only [isBlank, Bool.or_eq_true, beq_iff_eq] at hb
    rcases hb with (((rfl | rfl) | rfl) | rfl) | rfl <;> exact absurd hc (by decide)

end Lexer

end SqlFormat

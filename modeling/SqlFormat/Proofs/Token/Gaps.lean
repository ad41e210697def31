import Mathlib
import SqlFormat.Proofs.Token.Phrase
import SqlFormat.Proofs.Token.Number
import SqlFormat.Proofs.Token.Operator

/-!
# Texts that differ in their gaps

`Regapped` relates two texts that go on with the same characters except that a gap of one may be
another gap in the other. No scanner but those of literals, comments and phrases reads on over a
blank, so it stops in both texts at the same place, and the words ahead are the same past any gap.

Results: `Regapped.span` (runs of characters that are no blanks), `Regapped.number`,
`Regapped.facing` (the words ahead).
-/

namespace SqlFormat.Lexer

open Text

/-- The second text is the first with some of its gaps replaced by others. -/
inductive Regapped : List Char → List Char → Prop
  | nil : Regapped [] []
  | same (c : Char) {r r' : List Char} (rest : Regapped r r') : Regapped (c :: r) (c :: r')
  | gap {c d : Char} {r r' : List Char} (hc : isBlank c = true) (hd : isBlank d = true)
      (rest : Regapped (r.dropWhile isBlank) (r'.dropWhile isBlank)) :
      Regapped (c :: r) (d :: r')

/-- A test that no blank passes. -/
def StopsAtBlank (p : Char → Bool) : Prop :=
  ∀ c, isBlank c = true → p c = false

theorem stopsAtBlank_of {p : Char → Bool}
    (h : [' ', '\t', '\n', '\x0c', '\r'].all (!p ·) = true) : StopsAtBlank p := by
  intro c hc
  have hmem : c ∈ [' ', '\t', '\n', '\x0c', '\r'] := by simpa [isBlank, or_assoc] using hc
  simpa using List.all_eq_true.mp h c hmem

variable {r r' : List Char}

namespace Regapped

theorem refl (r : List Char) : Regapped r r := by
  induction r with
  | nil => exact .nil
  | cons c r ih => exact .same c ih

theorem symm (h : Regapped r r') : Regapped r' r := by
  induction h with
  | nil => exact .nil
  | same c _ ih => exact .same c ih
  | gap hc hd _ ih => exact .gap hd hc ih

theorem append (t : List Char) (h : Regapped r r') : Regapped (t ++ r) (t ++ r') := by
  induction t with
  | nil => exact h
  | cons c t ih => exact .same c ih

/-- A gap for a gap, before texts that go on with no blank. -/
theorem append_gap {g g' : List Char} (hg : IsGap g) (hg' : IsGap g')
    (hr : r.head?.any isBlank = false) (hr' : r'.head?.any isBlank = false) (h : Regapped r r') :
    Regapped (g ++ r) (g' ++ r') := by
  obtain ⟨c, cs, rfl⟩ := List.exists_cons_of_ne_nil hg.1
  obtain ⟨d, ds, rfl⟩ := List.exists_cons_of_ne_nil hg'.1
  refine .gap (hg.2 c (by simp)) (hg'.2 d (by simp)) ?_
  show Regapped ((cs ++ r).dropWhile isBlank) ((ds ++ r').dropWhile isBlank)
  rwa [dropWhile_blanks (fun e he => hg.2 e (List.mem_cons_of_mem _ he)) hr,
    dropWhile_blanks (fun e he => hg'.2 e (List.mem_cons_of_mem _ he)) hr']

/-- A character that is no blank stands in both texts. -/
theorem cons_inv {c : Char} {s : List Char} (h : Regapped (c :: s) r') (hc : isBlank c = false) :
    ∃ s', r' = c :: s' ∧ Regapped s s' := by
  cases h with
  | same _ rest => exact ⟨_, rfl, rest⟩
  | gap hc' => rw [hc] at hc'; cases hc'

theorem any_head? {p : Char → Bool} (hp : StopsAtBlank p) (h : Regapped r r') :
    r.head?.any p = r'.head?.any p := by
  cases h with
  | nil => rfl
  | same => rfl
  | gap hc hd => exact (hp _ hc).trans (hp _ hd).symm

theorem head?_eq_some {c : Char} (hc : isBlank c = false) (h : Regapped r r') :
    r.head? = some c ↔ r'.head? = some c := by
  have hp : StopsAtBlank (· == c) := by
    intro d hd
    rw [beq_eq_false_iff_ne]
    rintro rfl
    rw [hc] at hd
    cases hd
  have hsome : ∀ s : List Char, s.head? = some c ↔ s.head?.any (· == c) = true := by
    intro s
    cases s <;> simp
  rw [hsome, hsome, h.any_head? hp]

/-- Past a character that is no blank the texts correspond again. -/
theorem drop_one {p : Char → Bool} (hp : StopsAtBlank p) (h : Regapped r r')
    (hr : r.head?.any p = true) : Regapped (r.drop 1) (r'.drop 1) := by
  cases h with
  | nil => exact .nil
  | same _ rest => exact rest
  | gap hc => exact absurd hr (by simp [hp _ hc])

theorem isBlank_head? (h : Regapped r r') :
    r.head?.any isBlank = r'.head?.any isBlank := by
  cases h with
  | nil => rfl
  | same => rfl
  | gap hc hd => exact hc.trans hd.symm

theorem eq_nil_iff (h : Regapped r r') : r = [] ↔ r' = [] := by
  cases h <;> simp

/-- A run of characters that are no blanks is the same in both texts. -/
theorem span {p : Char → Bool} (hp : StopsAtBlank p) (h : Regapped r r') :
    r.takeWhile p = r'.takeWhile p ∧
      Regapped (r.drop (r.takeWhile p).length) (r'.drop (r'.takeWhile p).length) := by
  induction h with
  | nil => exact ⟨rfl, .nil⟩
  | same c rest ih =>
    cases hc : p c with
    | true => simpa [hc] using ih
    | false => simpa [hc] using rest.same c
  | gap hc hd rest => simpa [hp _ hc, hp _ hd] using gap hc hd rest

/-- The blanks that both texts start with make no difference. -/
theorem dropWhile (h : Regapped r r') :
    Regapped (r.dropWhile isBlank) (r'.dropWhile isBlank) := by
  induction h with
  | nil => exact .nil
  | same c rest ih =>
    cases hc : isBlank c with
    | true => simpa [hc] using ih
    | false => simpa [hc] using rest.same c
  | gap hc hd rest => simpa [hc, hd] using rest

/-- What starts with a pattern without blanks does so in both texts. -/
theorem isPrefixOf {l : List Char} (hl : l.all (!isBlank ·) = true) (h : Regapped r r') :
    l.isPrefixOf r = l.isPrefixOf r' := by
  induction l generalizing r r' with
  | nil => simp
  | cons c l ih =>
    rw [List.all_cons, Bool.and_eq_true, Bool.not_eq_true'] at hl
    have hne : ∀ {d : Char}, isBlank d = true → (c == d) = false := by
      intro d hd
      rw [beq_eq_false_iff_ne]
      rintro rfl
      rw [hl.1] at hd
      cases hd
    cases h with
    | nil => rfl
    | same d rest =>
      rw [List.isPrefixOf_cons_cons, List.isPrefixOf_cons_cons, ih hl.2 rest]
    | gap hc hd =>
      rw [List.isPrefixOf_cons_cons, List.isPrefixOf_cons_cons, hne hc, hne hd, Bool.false_and,
        Bool.false_and]

/-! ## Words and numbers -/

theorem word (h : Regapped r r') :
    Scan.word r = Scan.word r' ∧ r.take (Scan.word r) = r'.take (Scan.word r') ∧
      Regapped (r.drop (Scan.word r)) (r'.drop (Scan.word r')) := by
  have hword : StopsAtBlank Scan.isWordChar := stopsAtBlank_of (by decide)
  cases h with
  | nil => exact ⟨rfl, rfl, .nil⟩
  | @same c s s' rest =>
    have hp : StopsAtBlank fun d => Scan.isWordChar d || d == '$' := stopsAtBlank_of (by decide)
    obtain ⟨htake, hdrop⟩ := rest.span hp
    have hself : ∀ u : List Char,
        u.take (u.takeWhile fun d => Scan.isWordChar d || d == '$').length =
          u.takeWhile fun d => Scan.isWordChar d || d == '$' :=
      fun u => (List.prefix_iff_eq_take.mp (List.takeWhile_prefix _)).symm
    simp only [Scan.word]
    split
    · rw [Nat.add_comm 1, Nat.add_comm 1, List.take_succ_cons, List.take_succ_cons, hself, hself,
        htake, List.drop_succ_cons, List.drop_succ_cons, ← htake]
      exact ⟨rfl, rfl, htake ▸ hdrop⟩
    · exact ⟨rfl, rfl, rest.same c⟩
  | gap hc hd rest =>
    simp only [Scan.word, hword _ hc, hword _ hd, Bool.false_eq_true, if_false]
    exact ⟨trivial, rfl, gap hc hd rest⟩

theorem digits (h : Regapped r r') :
    Scan.digits r = Scan.digits r' ∧
      Regapped (r.drop (Scan.digits r)) (r'.drop (Scan.digits r')) := by
  have hp : StopsAtBlank fun c => c.isDigit || c == '_' := stopsAtBlank_of (by decide)
  obtain ⟨htake, hdrop⟩ := h.span hp
  exact ⟨congrArg List.length htake, hdrop⟩

theorem fraction (h : Regapped r r') :
    Scan.fraction r = Scan.fraction r' ∧
      Regapped (r.drop (Scan.fraction r)) (r'.drop (Scan.fraction r')) := by
  cases h with
  | nil => exact ⟨rfl, .nil⟩
  | @same c s s' rest =>
    obtain ⟨hdigits, hdrop⟩ := rest.digits
    simp only [Scan.fraction_cons, rest.head?_eq_some (c := '.') (by decide), hdigits]
    refine ⟨trivial, ?_⟩
    split_ifs
    · exact rest.same c
    · rw [Nat.add_comm, List.drop_succ_cons, List.drop_succ_cons, ← hdigits]
      exact hdigits ▸ hdrop
    · exact rest.same c
  | @gap c d s s' hc hd rest =>
    have hne : ∀ {e : Char}, isBlank e = true → e ≠ '.' := by
      rintro e he rfl
      exact absurd he (by decide)
    simp only [Scan.fraction_cons, hne hc, hne hd, if_false]
    exact ⟨trivial, gap hc hd rest⟩

theorem exponent (h : Regapped r r') : Scan.exponent r = Scan.exponent r' := by
  have hletter : StopsAtBlank fun e => e == 'e' || e == 'E' := stopsAtBlank_of (by decide)
  have hsign : StopsAtBlank fun c => c == '+' || c == '-' := stopsAtBlank_of (by decide)
  have hdigit : StopsAtBlank Char.isDigit := stopsAtBlank_of (by decide)
  cases h with
  | nil => rfl
  | @same e s s' rest =>
    -- A sign is no blank, so past it the two texts still correspond.
    have hrest : ∀ n, n = (if s.head?.any fun c => c == '+' || c == '-' then 1 else 0) →
        Regapped (s.drop n) (s'.drop n) := by
      rintro n rfl
      split
      · next h => exact rest.drop_one hsign h
      · exact rest
    simp only [Scan.exponent, ← rest.any_head? hsign]
    generalize hn : (if s.head?.any fun c => c == '+' || c == '-' then 1 else 0) = n
    rw [(hrest n hn.symm).any_head? hdigit, (hrest n hn.symm).digits.1]
  | gap hc hd rest =>
    simp only [Scan.exponent, hletter _ hc, hletter _ hd, Bool.false_eq_true, if_false]

theorem decimal (h : Regapped r r') : Scan.decimal r = Scan.decimal r' := by
  obtain ⟨hwhole, hdrop⟩ := h.digits
  obtain ⟨hfraction, hdrop'⟩ := hdrop.fraction
  rw [List.drop_drop, List.drop_drop] at hdrop'
  simp only [Scan.decimal]
  rw [hdrop'.exponent, hfraction, hwhole]

theorem radixNumber? (h : Regapped r r') : Scan.radixNumber? r = Scan.radixNumber? r' := by
  have hblank : ∀ {c : Char}, isBlank c = true → ∀ d, Scan.isRadixDigit c d = false := by
    intro c hc d
    simp only [isBlank, Bool.or_eq_true, beq_iff_eq] at hc
    rcases hc with (((rfl | rfl) | rfl) | rfl) | rfl <;> rfl
  have halnum : StopsAtBlank Char.isAlphanum := stopsAtBlank_of (by decide)
  have hstop : ∀ b, StopsAtBlank (Scan.isRadixDigit b) := fun b c hc =>
    Scan.isRadixDigit_of_not_isAlphanum (halnum c hc) b
  cases h with
  | nil => rfl
  | @same a s s' rest =>
    cases rest with
    | nil => rfl
    | @same b s s' rest =>
      cases rest with
      | nil => rfl
      | @same d s s' rest =>
        have hunderscore : StopsAtBlank (· == '_') := stopsAtBlank_of (by decide)
        have hp : StopsAtBlank fun c => Scan.isRadixDigit b c || c == '_' := fun c hc =>
          Bool.or_eq_false_iff.mpr ⟨hstop b c hc, hunderscore c hc⟩
        rw [Scan.radixNumber?_cons, Scan.radixNumber?_cons, (rest.span hp).1]
      | gap hc hd =>
        rw [Scan.radixNumber?_cons, Scan.radixNumber?_cons, hstop b _ hc, hstop b _ hd]
        simp
    | @gap c d s s' hc hd =>
      have hnone : ∀ {c : Char}, isBlank c = true →
          ∀ s, Scan.radixNumber? (a :: c :: s) = none := by
        intro c hc s
        cases s with
        | nil => exact Scan.radixNumber?_short (by simp)
        | cons e s => rw [Scan.radixNumber?_cons, hblank hc]; simp
      rw [hnone hc, hnone hd]
  | @gap c d s s' hc hd =>
    have hnone : ∀ {c : Char}, isBlank c = true → ∀ s, Scan.radixNumber? (c :: s) = none := by
      intro c hc s
      rcases s with _ | ⟨e, _ | ⟨f, s⟩⟩
      · exact Scan.radixNumber?_short (by simp)
      · exact Scan.radixNumber?_short (by simp)
      · rw [Scan.radixNumber?_cons, if_neg]
        rintro ⟨rfl, -⟩
        exact absurd hc (by decide)
    rw [hnone hc, hnone hd]

theorem number (h : Regapped r r') : Scan.number r = Scan.number r' := by
  rw [Scan.number, Scan.number, h.radixNumber?, h.decimal]

theorem compoundOperator (h : Regapped r r') :
    Scan.compoundOperator r = Scan.compoundOperator r' := by
  have hany : ∀ {ops : List String}, (∀ op ∈ ops, op.toList.all (!isBlank ·) = true) →
      ops.any (·.toList.isPrefixOf r) = ops.any (·.toList.isPrefixOf r') := by
    intro ops hops
    rw [Bool.eq_iff_iff, List.any_eq_true, List.any_eq_true]
    exact exists_congr fun op => and_congr_right fun hop => by
      rw [h.isPrefixOf (hops op hop)]
  have htriple : ∀ op ∈ Scan.tripleOperators, op.toList.all (!isBlank ·) = true := by decide
  have hdouble : ∀ op ∈ Scan.doubleOperators, op.toList.all (!isBlank ·) = true := by decide
  rw [Scan.compoundOperator, Scan.compoundOperator, hany htriple, hany hdouble]

/-! ## The words ahead -/

theorem blanks_eq_zero (h : Regapped r r') : Scan.blanks r = 0 ↔ Scan.blanks r' = 0 := by
  have hzero : ∀ u : List Char, Scan.blanks u = 0 ↔ u.head?.any isBlank = false := by
    intro u
    cases u with
    | nil => simp [Scan.blanks]
    | cons c u => cases hc : isBlank c <;> simp [Scan.blanks, hc]
  rw [hzero, hzero, h.isBlank_head?]

theorem wordsAhead (h : Regapped r r') (n : Nat) : wordsAhead n r = wordsAhead n r' := by
  induction n generalizing r r' with
  | zero => rfl
  | succ n ih =>
    have hnext := h.dropWhile
    rw [dropWhile_eq_drop, dropWhile_eq_drop] at hnext
    obtain ⟨_, htake, hdrop⟩ := hnext.word
    have hblanks : (Scan.blanks r != 0) = (Scan.blanks r' != 0) := by
      rw [Bool.eq_iff_iff, bne_iff_ne, bne_iff_ne, Ne, Ne, h.blanks_eq_zero]
    have halpha := hnext.any_head? (p := Char.isAlpha) (stopsAtBlank_of (by decide))
    rw [Lexer.wordsAhead, Lexer.wordsAhead, hblanks, halpha, htake, ih hdrop]

/-- Past a word both texts look the same. -/
theorem facing (h : Regapped r r') (hr : endsWord r = true) : Facing r r' where
  left := hr
  right := by
    have hp : StopsAtBlank fun c => Scan.isWordChar c || c == '$' := stopsAtBlank_of (by decide)
    rwa [endsWord, h.any_head? hp, ← endsWord] at hr
  ahead := h.wordsAhead
  ends := by
    have hrest := h.dropWhile
    have hstop : (r.dropWhile isBlank).head?.any isBlank = false := by
      rw [dropWhile_eq_drop]
      exact Scan.head?_drop_takeWhile isBlank r
    generalize r.dropWhile isBlank = u at hrest hstop ⊢
    generalize r'.dropWhile isBlank = u' at hrest ⊢
    cases hrest with
    | nil => rfl
    | same => rfl
    | gap hc => exact absurd hstop (by simp [hc])

end Regapped

end SqlFormat.Lexer

import SqlFormat.Proofs.Detect.Spacing

/-!
# Patterns in texts that are spaced anew

A match of a pattern in a text is followed in the text that mirrors it, place by place. `Leads` says of
a pattern that it starts with some character and that its matches can be followed; `Extends` says how a
match goes on after a character that has been matched. Both are proved along a pattern: a pattern that
allows white space may be spaced in any way, one that asks for white space or for none relies on how its
neighbours touch.

Results: `occursIn_iff`, `Leads.occursIn`, `leads_letters`, `leads_phrase`.
-/

namespace SqlFormat.Detect

open Text Pattern

variable {bound : Char → Char → Bool} {P P' Q Q' : Char → Bool} {p q : Pattern}

/-! ## Matches -/

theorem mem_runs {p : Char → Bool} {before : Option Char} {cs : List Char} {x : Place} :
    x ∈ Place.runs p before cs ↔
      ∃ w rest, cs = w ++ rest ∧ (∀ c ∈ w, p c = true) ∧ x = ⟨w.getLast?.or before, rest⟩ := by
  induction cs generalizing before x with
  | nil =>
    rw [Place.runs, List.mem_singleton]
    constructor
    · rintro rfl
      exact ⟨[], [], rfl, by simp, rfl⟩
    · rintro ⟨w, rest, h, -, rfl⟩
      obtain ⟨rfl, rfl⟩ := List.append_eq_nil_iff.mp h.symm
      rfl
  | cons c cs ih =>
    rw [Place.runs]
    constructor
    · intro h
      have hstay : x = ⟨before, c :: cs⟩ → ∃ w rest, c :: cs = w ++ rest ∧
          (∀ c ∈ w, p c = true) ∧ x = ⟨w.getLast?.or before, rest⟩ := by
        rintro rfl
        exact ⟨[], c :: cs, rfl, by simp, rfl⟩
      split at h
      · next hc =>
        rcases List.mem_append.mp h with h | h
        · obtain ⟨w, rest, rfl, hw, rfl⟩ := ih.mp h
          exact ⟨c :: w, rest, rfl, by simpa [hc] using hw, by rw [getLast?_cons_or]⟩
        · exact hstay (List.mem_singleton.mp h)
      · exact hstay (List.mem_singleton.mp h)
    · rintro ⟨w, rest, h, hw, rfl⟩
      cases w with
      | nil =>
        obtain rfl : c :: cs = rest := h
        split <;> simp
      | cons d w =>
        obtain ⟨rfl, rfl⟩ := List.cons.inj h
        rw [if_pos (hw c (by simp)), getLast?_cons_or]
        exact List.mem_append_left _ (ih.mpr
          ⟨w, rest, rfl, fun d hd => hw d (List.mem_cons_of_mem _ hd), rfl⟩)

theorem mem_ends_one {r : Char → Bool} {x x' : Place} :
    x' ∈ (one r).ends x ↔ ∃ c s, x.after = c :: s ∧ r c = true ∧ x' = ⟨some c, s⟩ := by
  cases h : x.after with
  | nil => simp [Pattern.ends, h]
  | cons c s =>
    by_cases hc : r c = true
    · simp [Pattern.ends, h, hc]
    · simp [Pattern.ends, h, hc]

theorem mem_ends_seq {x x' : Place} :
    x' ∈ (seq p q).ends x ↔ ∃ m ∈ p.ends x, x' ∈ q.ends m := by
  rw [Pattern.ends, List.mem_flatMap]

theorem firstEnd?_isSome {before : Option Char} {text : List Char} :
    (p.firstEnd? before text).isSome = true ↔
      ∃ pre rest, text = pre ++ rest ∧ p.ends ⟨pre.getLast?.or before, rest⟩ ≠ [] := by
  induction text generalizing before with
  | nil =>
    rw [Pattern.firstEnd?, List.isSome_head?]
    constructor
    · intro h
      exact ⟨[], [], rfl, h⟩
    · rintro ⟨pre, rest, h, hne⟩
      obtain ⟨rfl, rfl⟩ := List.append_eq_nil_iff.mp h.symm
      exact hne
  | cons c cs ih =>
    rw [Pattern.firstEnd?]
    split
    · next found _ hends =>
      refine iff_of_true rfl ⟨[], c :: cs, rfl, ?_⟩
      rw [List.getLast?_nil, Option.none_or, hends]
      simp
    · next hends =>
      rw [ih]
      constructor
      · rintro ⟨pre, rest, rfl, hne⟩
        refine ⟨c :: pre, rest, rfl, ?_⟩
        rw [List.getLast?_cons]
        cases pre <;> simpa using hne
      · rintro ⟨pre, rest, h, hne⟩
        cases pre with
        | nil =>
          obtain rfl : c :: cs = rest := h
          exact absurd hends hne
        | cons d pre =>
          obtain ⟨rfl, rfl⟩ := List.cons.inj h
          refine ⟨pre, rest, rfl, ?_⟩
          rw [List.getLast?_cons] at hne
          cases pre <;> simpa using hne

/-- A pattern occurs in a text if it has a match at some place. -/
theorem occursIn_iff {text : List Char} :
    p.occursIn text = true ↔
      ∃ pre rest, text = pre ++ rest ∧ p.ends ⟨pre.getLast?, rest⟩ ≠ [] := by
  simp only [Pattern.occursIn, firstEnd?_isSome, Option.or_none]

/-! ## Following a match -/

/-- The places are after the same character, one for which `P` holds. -/
def Meets (bound : Char → Char → Bool) (P : Char → Bool) (x y : Place) : Prop :=
  ∃ c d, x.before = some c ∧ y.before = some d ∧ c.toLower = d.toLower ∧ P c = true ∧
    Mirrors (Keeps bound) (some c) x.after y.after

/-- From related places, every match in the first text has a match in the second. -/
def Carries (A : Place → Place → Prop) (p : Pattern) (B : Place → Place → Prop) : Prop :=
  ∀ x y, A x y → ∀ x' ∈ p.ends x, ∃ y' ∈ p.ends y, B x' y'

/-- The pattern starts with a character for which `Q` holds and ends with one for which `P` holds, and
its matches can be followed. -/
structure Leads (bound : Char → Char → Bool) (Q : Char → Bool) (p : Pattern) (P : Char → Bool) :
    Prop where
  starts : ∀ x, ∀ x' ∈ p.ends x, ∃ c s, x.after = c :: s ∧ Q c = true ∧ isWhite c = false
  carries : Carries (Faces bound) p (Meets bound P)

/-- After a character for which `P` holds, the matches of the pattern can be followed, and they end
after a character for which `P'` holds. -/
def Extends (bound : Char → Char → Bool) (P : Char → Bool) (p : Pattern) (P' : Char → Bool) : Prop :=
  Carries (Meets bound P) p (Meets bound P')

/-- Wherever such characters touch, or touch not, they do so in the second text too. -/
def Bound (bound : Char → Char → Bool) (P Q : Char → Bool) : Prop :=
  ∀ c d, P c = true → Q d = true →
    (isWord c = true ∧ isWord d = true) ∨ bound c.toLower d.toLower = true

theorem Carries.seq {A B C : Place → Place → Prop} (hp : Carries A p B) (hq : Carries B q C) :
    Carries A (.seq p q) C := by
  intro x y hxy x' hx'
  obtain ⟨m, hm, hx'⟩ := mem_ends_seq.mp hx'
  obtain ⟨n, hn, hmn⟩ := hp x y hxy m hm
  obtain ⟨y', hy', h⟩ := hq m n hmn x' hx'
  exact ⟨y', mem_ends_seq.mpr ⟨n, hn, hy'⟩, h⟩

theorem Extends.seq {R : Char → Bool} (hp : Extends bound P p Q) (hq : Extends bound Q q R) :
    Extends bound P (.seq p q) R :=
  Carries.seq hp hq

theorem Meets.mono (hP : ∀ c, P c = true → P' c = true) {x y : Place} (h : Meets bound P x y) :
    Meets bound P' x y := by
  obtain ⟨c, d, hx, hy, hcd, hc, h⟩ := h
  exact ⟨c, d, hx, hy, hcd, hP c hc, h⟩

namespace Leads

theorem seq (hp : Leads bound Q p P) (hq : Extends bound P q P') :
    Leads bound Q (.seq p q) P' where
  starts x x' hx' := by
    obtain ⟨m, hm, -⟩ := mem_ends_seq.mp hx'
    exact hp.starts x m hm
  carries := hp.carries.seq hq

theorem mono (h : Leads bound Q p P) (hQ : ∀ c, Q c = true → Q' c = true)
    (hP : ∀ c, P c = true → P' c = true) : Leads bound Q' p P' where
  starts x x' hx' := by
    obtain ⟨c, s, hx, hc, hw⟩ := h.starts x x' hx'
    exact ⟨c, s, hx, hQ c hc, hw⟩
  carries x y hxy x' hx' := by
    obtain ⟨y', hy', hm⟩ := h.carries x y hxy x' hx'
    exact ⟨y', hy', hm.mono hP⟩

/-- A character of a class. -/
theorem one {r : Char → Bool} (hr : IgnoresCase r) (hwhite : ∀ c, r c = true → isWhite c = false) :
    Leads bound r (.one r) r where
  starts x x' hx' := by
    obtain ⟨c, s, hx, hc, -⟩ := mem_ends_one.mp hx'
    exact ⟨c, s, hx, hc, hwhite c hc⟩
  carries := by
    rintro x y ⟨c, d, s, t, hx, hy, -, hcd, hmirrors, -⟩ x' hx'
    obtain ⟨c', s', hxc, hc, rfl⟩ := mem_ends_one.mp hx'
    obtain ⟨rfl, rfl⟩ := List.cons.inj (hx.symm.trans hxc)
    have hd : r d = true := by rw [← hr d, ← hcd, hr, hc]
    exact ⟨⟨some d, t⟩, mem_ends_one.mpr ⟨d, t, hy, hd, rfl⟩, c, d, rfl, rfl, hcd, hc, hmirrors⟩

/-- A pattern before which a word may not go on. -/
theorem boundary (h : Leads bound Q p P) (hQ : ∀ c, Q c = true → isWord c = true) :
    Leads bound Q (.seq .boundary p) P where
  starts x x' hx' := by
    obtain ⟨m, hm, hmatch⟩ := mem_ends_seq.mp hx'
    rw [Pattern.ends] at hm
    split at hm
    · obtain rfl := List.mem_singleton.mp hm
      exact h.starts m x' hmatch
    · cases hm
  carries x y hxy x' hx' := by
    obtain ⟨m, hm, hmatch⟩ := mem_ends_seq.mp hx'
    rw [Pattern.ends] at hm
    split at hm
    · next hedge =>
      obtain rfl := List.mem_singleton.mp hm
      obtain ⟨c, s, hx, hc, -⟩ := h.starts m x' hmatch
      obtain ⟨y', hy', hmeets⟩ := h.carries m y hxy x' hmatch
      obtain ⟨c', d, s', t, hxc, hy, -, hcd, -, hbefore⟩ := hxy
      obtain ⟨rfl, rfl⟩ := List.cons.inj (hx.symm.trans hxc)
      have hword := hQ c hc
      refine ⟨y', mem_ends_seq.mpr ⟨y, ?_, hy'⟩, hmeets⟩
      have hedge' : y.atBoundary = true := by
        rw [Place.atBoundary, ← hbefore hword, hy]
        rw [Place.atBoundary, hx] at hedge
        simpa [hword, isWord_congr hcd ▸ hword] using hedge
      rw [Pattern.ends, if_pos hedge']
      exact List.mem_singleton.mpr rfl
    · cases hm

/-- One of two patterns. -/
theorem either (hp : Leads bound Q p P) (hq : Leads bound Q q P) :
    Leads bound Q (.either p q) P where
  starts x x' hx' := by
    rcases List.mem_append.mp hx' with hx' | hx'
    · exact hp.starts x x' hx'
    · exact hq.starts x x' hx'
  carries x y hxy x' hx' := by
    rcases List.mem_append.mp hx' with hx' | hx'
    · obtain ⟨y', hy', hm⟩ := hp.carries x y hxy x' hx'
      exact ⟨y', List.mem_append_left _ hy', hm⟩
    · obtain ⟨y', hy', hm⟩ := hq.carries x y hxy x' hx'
      exact ⟨y', List.mem_append_right _ hy', hm⟩

/-- A pattern that may be left out. -/
theorem opt (hp : Leads bound Q p P) (hq : Leads bound Q q P') (hpq : Extends bound P q P') :
    Leads bound Q (.seq (.opt p) q) P' := by
  have hends : ∀ x, (Pattern.seq (.opt p) q).ends x = (Pattern.either (.seq p q) q).ends x := by
    intro x
    simp [Pattern.ends]
  have h := (hp.seq hpq).either hq
  exact ⟨fun x x' hx' => h.starts x x' (hends x ▸ hx'), fun x y hxy x' hx' => by
    rw [hends]
    exact h.carries x y hxy x' (hends x ▸ hx')⟩

end Leads

/-! ## How a match goes on -/

/-- Where a match in the first text goes on behind white space, so does one in the second. -/
theorem Meets.next {x y : Place} (h : Meets bound P x y) {w s : List Char} {c : Char}
    (hx : x.after = w ++ c :: s) (hw : AllWhite w) (hc : isWhite c = false) :
    ∃ v rest e, y.after = v ++ rest ∧ AllWhite v ∧ P e = true ∧
      Keeps bound e.toLower c.toLower w.isEmpty v.isEmpty ∧
      Faces bound ⟨w.getLast?.or x.before, c :: s⟩ ⟨v.getLast?.or y.before, rest⟩ := by
  obtain ⟨e, d, hxb, hyb, hcd, he, hmirrors⟩ := h
  rw [hx] at hmirrors
  obtain ⟨v, f, t, hy, hv, hcf, joint, rest⟩ := hmirrors.next_inv hw hc
  rw [hxb, hyb]
  exact ⟨v, f :: t, e, hy, hv, he, joint e rfl,
    Mirrors.faces_next (congrArg some hcd) hw hv hc hcf joint rest⟩

namespace Extends

/-- A pattern that follows directly. -/
theorem touch (hq : Leads bound Q q P') (hb : Bound bound P Q) : Extends bound P q P' := by
  intro x y hxy x' hx'
  obtain ⟨c, s, hx, hc, hwhite⟩ := hq.starts x x' hx'
  obtain ⟨v, rest, e, hy, hv, he, hkeeps, hfaces⟩ := hxy.next (w := []) hx (by simp [AllWhite]) hwhite
  obtain rfl : v = [] := by
    rcases hb e c he hc with ⟨hwe, hwc⟩ | hbound
    · have := hkeeps.2 (by rwa [ignoresCase_isWord]) (by rwa [ignoresCase_isWord])
      simpa using this.symm
    · simpa using hkeeps.1 hbound rfl
  have hplace : ∀ z : Place, (⟨([] : List Char).getLast?.or z.before, z.after⟩ : Place) = z :=
    fun _ => rfl
  rw [List.nil_append] at hy
  rw [← hx, ← hy, hplace, hplace] at hfaces
  exact hq.carries x y hfaces x' hx'

/-- A pattern that follows after any white space. -/
theorem space (hq : Leads bound Q q P') : Extends bound P (.seq Pattern.space q) P' := by
  intro x y hxy x' hx'
  obtain ⟨m, hm, hmatch⟩ := mem_ends_seq.mp hx'
  obtain ⟨w, rest, hx, hw, rfl⟩ := mem_runs.mp hm
  obtain ⟨c, s, rfl, -, hwhite⟩ := hq.starts _ x' hmatch
  obtain ⟨v, rest', _, hy, hv, -, -, hfaces⟩ := hxy.next hx hw hwhite
  obtain ⟨y', hy', hmeets⟩ := hq.carries _ _ hfaces x' hmatch
  exact ⟨y', mem_ends_seq.mpr ⟨_, mem_runs.mpr ⟨v, rest', hy, hv, rfl⟩, hy'⟩, hmeets⟩

/-- A word that follows a word after white space. -/
theorem space₁ (hq : Leads bound Q q P') (hP : ∀ c, P c = true → isWord c = true)
    (hQ : ∀ c, Q c = true → isWord c = true) : Extends bound P (.seq Pattern.space₁ q) P' := by
  intro x y hxy x' hx'
  obtain ⟨m, hm, hmatch⟩ := mem_ends_seq.mp hx'
  obtain ⟨n, hn, hrun⟩ := mem_ends_seq.mp hm
  obtain ⟨g, cs, hx, hg, rfl⟩ := mem_ends_one.mp hn
  obtain ⟨w, rest, rfl, hw, rfl⟩ := mem_runs.mp hrun
  obtain ⟨c, s, rfl, hc, hwhite⟩ := hq.starts _ x' hmatch
  have hall : AllWhite (g :: w) := by
    rintro e (_ | ⟨_, he⟩)
    · exact hg
    · exact hw e he
  obtain ⟨v, rest', e, hy, hv, he, hkeeps, hfaces⟩ := hxy.next (w := g :: w) hx hall hwhite
  have hne : v ≠ [] := by
    have := hkeeps.2 (by rw [ignoresCase_isWord]; exact hP e he)
      (by rw [ignoresCase_isWord]; exact hQ c hc)
    simpa using this
  obtain ⟨b, v, rfl⟩ := List.exists_cons_of_ne_nil hne
  rw [getLast?_cons_or, getLast?_cons_or] at hfaces
  obtain ⟨y', hy', hmeets⟩ := hq.carries _ _ hfaces x' hmatch
  refine ⟨y', mem_ends_seq.mpr ⟨_, mem_ends_seq.mpr ⟨⟨some b, v ++ rest'⟩, ?_, ?_⟩, hy'⟩, hmeets⟩
  · exact mem_ends_one.mpr ⟨b, v ++ rest', hy, hv b (by simp), rfl⟩
  · exact mem_runs.mpr ⟨v, rest', rfl, fun c hc => hv c (List.mem_cons_of_mem _ hc), rfl⟩

/-- The end of a word. -/
theorem boundary (hP : ∀ c, P c = true → isWord c = true) : Extends bound P .boundary P := by
  intro x y hxy x' hx'
  rw [Pattern.ends] at hx'
  split at hx'
  · next hedge =>
    obtain rfl := List.mem_singleton.mp hx'
    have hmeets := hxy
    obtain ⟨c, d, hx, hy, hcd, hc, hmirrors⟩ := hxy
    have hword := hP c hc
    refine ⟨y, ?_, hmeets⟩
    have hstop : y.after.head?.any isWord = false := by
      cases hyafter : y.after with
      | nil => rfl
      | cons f t =>
        rw [List.head?_cons, Option.any_some, Bool.eq_false_iff]
        intro hf
        -- A word that goes on in the second text would go on in the first.
        have hsame : (some c).map Char.toLower = (some d).map Char.toLower := congrArg some hcd
        have hflip := hmirrors.flip hsame
        rw [hyafter] at hflip
        obtain ⟨v, e, s, hxafter, hv, hfe, joint, -⟩ :=
          hflip.next_inv (w := []) (by simp [AllWhite]) (not_isWhite_of_isWord hf)
        have htouch := (joint d rfl).2 (by rw [ignoresCase_isWord, ← isWord_congr hcd, hword])
          (by rwa [ignoresCase_isWord])
        obtain rfl : v = [] := by simpa using htouch
        rw [Place.atBoundary, hx, hxafter] at hedge
        simp [hword, ← isWord_congr hfe, hf] at hedge
    have hedge' : y.atBoundary = true := by
      rw [Place.atBoundary, hy, hstop]
      simp [← isWord_congr hcd, hword]
    rw [Pattern.ends, if_pos hedge']
    exact List.mem_singleton.mpr rfl
  · cases hx'

/-- A pattern that may be left out. -/
theorem opt (h : Extends bound P p P) : Extends bound P (.opt p) P := by
  intro x y hxy x' hx'
  rcases List.mem_append.mp hx' with hx' | hx'
  · obtain ⟨y', hy', hmeets⟩ := h x y hxy x' hx'
    exact ⟨y', List.mem_append_left _ hy', hmeets⟩
  · obtain rfl := List.mem_singleton.mp hx'
    exact ⟨y, List.mem_append_right _ (List.mem_singleton.mpr rfl), hxy⟩

/-- Any number of characters of a class. -/
theorem many {r : Char → Bool} (hr : IgnoresCase r) (hwhite : ∀ c, r c = true → isWhite c = false)
    (hrP : ∀ c, r c = true → P c = true) (hb : Bound bound P r) : Extends bound P (.many r) P := by
  intro x y hxy x' hx'
  obtain ⟨w, rest, hx, hw, rfl⟩ := mem_runs.mp hx'
  clear hx'
  induction w generalizing x y with
  | nil =>
    refine ⟨y, mem_runs.mpr ⟨[], y.after, rfl, by simp, rfl⟩, ?_⟩
    rw [List.nil_append] at hx
    rw [← hx]
    exact hxy
  | cons c w ih =>
    have hone : (⟨some c, w ++ rest⟩ : Place) ∈ (Pattern.one r).ends x :=
      mem_ends_one.mpr ⟨c, w ++ rest, hx, hw c (by simp), rfl⟩
    obtain ⟨n, hn, hmeets⟩ := Extends.touch (Leads.one hr hwhite) hb x y hxy _ hone
    obtain ⟨d, t, hy, hd, rfl⟩ := mem_ends_one.mp hn
    obtain ⟨y', hy', hmeets'⟩ := ih _ _ (hmeets.mono hrP) rfl
      fun e he => hw e (List.mem_cons_of_mem _ he)
    obtain ⟨v, rest', ht, hv, rfl⟩ := mem_runs.mp hy'
    refine ⟨_, mem_runs.mpr ⟨d :: v, rest', by rw [hy, List.cons_append]; exact congrArg _ ht, ?_, rfl⟩, ?_⟩
    · rintro e (_ | ⟨_, he⟩)
      · exact hd
      · exact hv e he
    · rwa [getLast?_cons_or, getLast?_cons_or]

end Extends

/-! ## Occurrences -/

/-- A pattern that occurs in a text occurs in the text that mirrors it. -/
theorem Leads.occursIn (h : Leads bound Q p P) {s t : List Char}
    (hst : Mirrors (Keeps bound) none s t) (hs : p.occursIn s = true) : p.occursIn t = true := by
  obtain ⟨pre, rest, rfl, hne⟩ := occursIn_iff.mp hs
  obtain ⟨x', hx'⟩ := List.exists_mem_of_ne_nil _ hne
  obtain ⟨c, cs, rfl, -, hwhite⟩ := h.starts _ x' hx'
  have hstart : (none : Option Char).map Char.toLower = (none : Option Char).map Char.toLower := rfl
  obtain ⟨pre', rest', rfl, hfaces⟩ := hst.faces hstart hwhite
  rw [Option.or_none, Option.or_none] at hfaces
  obtain ⟨y', hy', -⟩ := h.carries _ _ hfaces x' hx'
  exact occursIn_iff.mpr ⟨pre', rest', rfl, List.ne_nil_of_mem hy'⟩

/-! ## Letters, marks and phrases -/

theorem ignoresCase_sameLetter (l : Char) : IgnoresCase (sameLetter l) := by
  intro c
  have hlong : (c.toLower == 'ſ') = (c == 'ſ') := ignoresCase_eq (by decide) c
  have hkelvin : (c.toLower == '\u212A') = (c == '\u212A') := ignoresCase_eq (by decide) c
  rw [sameLetter, sameLetter, ignoresCase_toLower c, hlong, hkelvin]

theorem isWord_of_sameLetter {l c : Char} (hl : isKeywordChar l = true)
    (h : sameLetter l c = true) : isWord c = true := by
  simp only [sameLetter, Bool.or_eq_true, Bool.and_eq_true, beq_iff_eq] at h
  rcases h with (h | ⟨rfl, -⟩) | ⟨rfl, -⟩
  · rw [isWord_congr h, isWord_of_isKeywordChar hl]
  · decide
  · decide +kernel

theorem bound_isWord (hP : ∀ c, P c = true → isWord c = true)
    (hQ : ∀ c, Q c = true → isWord c = true) : Bound bound P Q :=
  fun c d hc hd => .inl ⟨hP c hc, hQ d hd⟩

/-- Some characters of keywords. -/
def isPlainWord (s : String) : Bool :=
  !s.toList.isEmpty && s.toList.all isKeywordChar

theorem leads_letter {l : Char} (hl : isKeywordChar l = true) :
    Leads bound (sameLetter l) (.one (sameLetter l)) isWord :=
  (Leads.one (ignoresCase_sameLetter l) fun _ hc =>
    not_isWhite_of_isWord (isWord_of_sameLetter hl hc)).mono (fun _ hc => hc)
      fun _ hc => isWord_of_sameLetter hl hc

/-- Letters start with the first of them. -/
theorem leads_letters_cons (l : Char) (ls : List Char)
    (h : ∀ c ∈ l :: ls, isKeywordChar c = true) :
    Leads bound (sameLetter l) (all ((l :: ls).map fun c => .one (sameLetter c))) isWord := by
  induction ls generalizing l with
  | nil => exact leads_letter (h l (by simp))
  | cons m ms ih =>
    refine (leads_letter (h l (by simp))).seq (.touch (ih m fun c hc => h c (List.mem_cons_of_mem _ hc)) ?_)
    exact bound_isWord (fun _ hc => hc) fun _ hc => isWord_of_sameLetter (h m (by simp)) hc

theorem leads_letters {s : String} (h : isPlainWord s = true) :
    Leads bound isWord (letters s) isWord := by
  simp only [isPlainWord, Bool.and_eq_true, Bool.not_eq_true', List.all_eq_true] at h
  obtain ⟨hne, hall⟩ := h
  unfold letters
  cases hs : s.toList with
  | nil => simp [hs] at hne
  | cons l ls =>
    rw [hs] at hall
    exact (leads_letters_cons l ls hall).mono (fun _ hc => isWord_of_sameLetter (hall l (by simp)) hc)
      fun _ hc => hc

theorem leads_words {w : String} {ws : List String}
    (h : ∀ v ∈ w :: ws, isPlainWord v = true) :
    Leads bound isWord (all (((w :: ws).map letters).intersperse space₁)) isWord := by
  induction ws generalizing w with
  | nil => exact leads_letters (h w (by simp))
  | cons v vs ih =>
    have hrest := ih fun u hu => h u (List.mem_cons_of_mem _ hu)
    have hall : all (((w :: v :: vs).map letters).intersperse space₁) =
        .seq (letters w) (.seq space₁ (all (((v :: vs).map letters).intersperse space₁))) := by
      cases vs <;> rfl
    rw [hall]
    exact (leads_letters (h w (by simp))).seq (.space₁ hrest (fun _ hc => hc) fun _ hc => hc)

/-- A phrase may have any white space between its words. -/
theorem leads_phrase {w : String} {ws : List String} (h : ∀ v ∈ w :: ws, isPlainWord v = true) :
    Leads bound isWord (phrase (w :: ws)) isWord :=
  ((leads_words h).seq (.boundary fun _ hc => hc)).boundary fun _ hc => hc

theorem leads_digits : Leads bound isWord digits₁ isWord := by
  have hwhite : ∀ c, isDigit c = true → isWhite c = false :=
    fun c hc => not_isWhite_of_isWord (isWord_of_isDigit hc)
  refine ((Leads.one ignoresCase_isDigit hwhite).seq (.many ignoresCase_isDigit hwhite
    (fun _ hc => hc) ?_)).mono (fun _ => isWord_of_isDigit) fun _ => isWord_of_isDigit
  exact bound_isWord (fun _ => isWord_of_isDigit) fun _ => isWord_of_isDigit

/-- A character that is no letter. -/
theorem leads_char {c : Char} (hc : c.isAlpha = false ∧ isWhite c = false) :
    Leads bound (· == c) (char c) (· == c) :=
  Leads.one (ignoresCase_eq hc.1) fun d hd => by
    rw [eq_of_beq hd]
    exact hc.2

/-- Neighbouring characters of a mark have to touch. -/
theorem leads_exactly (c : Char) (cs : List Char)
    (hcs : ∀ d ∈ c :: cs, d.isAlpha = false ∧ isWhite d = false)
    (hbound : (c :: cs).IsChain (bound · · = true)) :
    Leads bound (· == c) (all ((c :: cs).map char)) fun _ => true := by
  induction cs generalizing c with
  | nil => exact (leads_char (hcs c (by simp))).mono (fun _ hd => hd) fun _ _ => rfl
  | cons d ds ih =>
    refine (leads_char (hcs c (by simp))).seq
      (.touch (ih d (fun e he => hcs e (List.mem_cons_of_mem _ he)) hbound.tail) ?_)
    intro a b ha hb
    rw [eq_of_beq ha, eq_of_beq hb, toLower_of_not_isAlpha (hcs c (by simp)).1,
      toLower_of_not_isAlpha (hcs d (by simp)).1]
    exact .inr hbound.rel

end SqlFormat.Detect

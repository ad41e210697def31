import SqlFormat.Detect
import SqlFormat.Proofs.Detect.Matches
import SqlFormat.Proofs.Text.Reindent
import SqlFormat.Proofs.Token.Scan

/-!
# Comments that name the dialect

What names a dialect is read from one line, and from its first match only. White space around the line
does not matter, so that a comment that is trimmed or indented anew names what it named before.

Results: `hintedName?_white`, `hintedName?_append_white` (a line), `textHint?_append_white`,
`textHint?_reindent` (several lines).
-/

namespace SqlFormat.Detect

open Text

/-! ## The texts of a pattern -/

namespace Pattern

/-- The texts that a pattern matches, edges of words apart. -/
def Reads : Pattern → List Char → Prop
  | one r, m => ∃ c, m = [c] ∧ r c = true
  | many r, m => ∀ c ∈ m, r c = true
  | boundary, m => m = []
  | seq p q, m => ∃ a b, m = a ++ b ∧ p.Reads a ∧ q.Reads b
  | opt p, m => p.Reads m ∨ m = []
  | either p q, m => p.Reads m ∨ q.Reads m

/-- The pattern looks at no edge of a word. -/
def edgeless : Pattern → Bool
  | boundary => false
  | one _ | many _ => true
  | seq p q | either p q => p.edgeless && q.edgeless
  | opt p => p.edgeless

/-- No match of the pattern holds the character. -/
def rejects (e : Char) : Pattern → Bool
  | one r | many r => !r e
  | boundary => true
  | seq p q | either p q => p.rejects e && q.rejects e
  | opt p => p.rejects e

variable {p q : Pattern}

theorem mem_ends_iff (h : p.edgeless = true) {x x' : Place} :
    x' ∈ p.ends x ↔ ∃ m, p.Reads m ∧ x.after = m ++ x'.after ∧
      x'.before = m.getLast?.or x.before := by
  induction p generalizing x x' with
  | one r =>
    rw [mem_ends_one]
    constructor
    · rintro ⟨c, s, hx, hc, rfl⟩
      exact ⟨[c], ⟨c, rfl, hc⟩, hx, rfl⟩
    · rintro ⟨_, ⟨c, rfl, hc⟩, hx, hbefore⟩
      obtain ⟨before, after⟩ := x'
      exact ⟨c, after, hx, hc, by simpa using hbefore⟩
  | many r =>
    rw [Pattern.ends, mem_runs]
    constructor
    · rintro ⟨w, rest, hx, hw, rfl⟩
      exact ⟨w, hw, hx, rfl⟩
    · rintro ⟨w, hw, hx, hbefore⟩
      obtain ⟨before, after⟩ := x'
      exact ⟨w, after, hx, hw, by simpa using hbefore⟩
  | boundary => cases h
  | seq p q ihp ihq =>
    simp only [edgeless, Bool.and_eq_true] at h
    rw [mem_ends_seq]
    constructor
    · rintro ⟨m, hm, hx'⟩
      obtain ⟨a, ha, hxa, hma⟩ := (ihp h.1).mp hm
      obtain ⟨b, hb, hmb, hbefore⟩ := (ihq h.2).mp hx'
      refine ⟨a ++ b, ⟨a, b, rfl, ha, hb⟩, by rw [hxa, hmb, List.append_assoc], ?_⟩
      rw [hbefore, hma, List.getLast?_append, Option.or_assoc]
    · rintro ⟨_, ⟨a, b, rfl, ha, hb⟩, hx, hbefore⟩
      refine ⟨⟨a.getLast?.or x.before, b ++ x'.after⟩, (ihp h.1).mpr ⟨a, ha, by simpa using hx, rfl⟩,
        (ihq h.2).mpr ⟨b, hb, rfl, ?_⟩⟩
      rw [hbefore, List.getLast?_append, Option.or_assoc]
  | opt p ih =>
    rw [Pattern.ends, List.mem_append, ih h, List.mem_singleton]
    constructor
    · rintro (⟨m, hm, hx⟩ | rfl)
      · exact ⟨m, .inl hm, hx⟩
      · exact ⟨[], .inr rfl, rfl, rfl⟩
    · rintro ⟨m, hm | rfl, hx, hbefore⟩
      · exact .inl ⟨m, hm, hx, hbefore⟩
      · obtain ⟨before, after⟩ := x
        obtain ⟨before', after'⟩ := x'
        simp only [List.nil_append] at hx
        simp only [List.getLast?_nil, Option.none_or] at hbefore
        exact .inr (by rw [hx, hbefore])
  | either p q ihp ihq =>
    simp only [edgeless, Bool.and_eq_true] at h
    rw [Pattern.ends, List.mem_append, ihp h.1, ihq h.2]
    constructor
    · rintro (⟨m, hm, hx⟩ | ⟨m, hm, hx⟩)
      · exact ⟨m, .inl hm, hx⟩
      · exact ⟨m, .inr hm, hx⟩
    · rintro ⟨m, hm | hm, hx⟩
      · exact .inl ⟨m, hm, hx⟩
      · exact .inr ⟨m, hm, hx⟩

theorem not_mem_of_rejects {e : Char} (h : p.rejects e = true) {m : List Char} (hm : p.Reads m) :
    e ∉ m := by
  induction p generalizing m with
  | one r =>
    obtain ⟨c, rfl, hc⟩ := hm
    rw [List.mem_singleton]
    rintro rfl
    rw [rejects, hc] at h
    cases h
  | many r =>
    intro hmem
    rw [rejects, hm e hmem] at h
    cases h
  | boundary =>
    obtain rfl : m = [] := hm
    exact List.not_mem_nil
  | seq p q ihp ihq =>
    simp only [rejects, Bool.and_eq_true] at h
    obtain ⟨a, b, rfl, ha, hb⟩ := hm
    rw [List.mem_append]
    exact not_or.mpr ⟨ihp h.1 ha, ihq h.2 hb⟩
  | opt p ih =>
    rcases hm with hm | rfl
    · exact ih h hm
    · exact List.not_mem_nil
  | either p q ihp ihq =>
    simp only [rejects, Bool.and_eq_true] at h
    exact hm.elim (ihp h.1) (ihq h.2)

theorem reads_all_nil {m : List Char} : (all []).Reads m ↔ m = [] := by
  constructor
  · intro h
    exact List.eq_nil_iff_forall_not_mem.mpr fun c hc => Bool.false_ne_true (h c hc)
  · rintro rfl c hc
    cases hc

theorem reads_all_cons {ps : List Pattern} {m : List Char} :
    (all (p :: ps)).Reads m ↔ ∃ a b, m = a ++ b ∧ p.Reads a ∧ (all ps).Reads b := by
  cases ps with
  | nil =>
    constructor
    · intro h
      exact ⟨m, [], by simp, h, reads_all_nil.mpr rfl⟩
    · rintro ⟨a, b, rfl, ha, hb⟩
      rw [reads_all_nil.mp hb, List.append_nil]
      exact ha
  | cons q qs => exact Iff.rfl

/-- The pattern has a match in a text where a text that it matches is part of it. -/
theorem occursIn_iff_reads (h : p.edgeless = true) {text : List Char} :
    p.occursIn text = true ↔ ∃ a m b, text = a ++ (m ++ b) ∧ p.Reads m := by
  rw [occursIn_iff]
  constructor
  · rintro ⟨a, rest, rfl, hne⟩
    obtain ⟨x', hx'⟩ := List.exists_mem_of_ne_nil _ hne
    obtain ⟨m, hm, hrest, -⟩ := (mem_ends_iff h).mp hx'
    exact ⟨a, m, x'.after, by rw [← hrest], hm⟩
  · rintro ⟨a, m, b, rfl, hm⟩
    refine ⟨a, m ++ b, rfl, List.ne_nil_of_mem (a := ⟨m.getLast?.or a.getLast?, b⟩) ?_⟩
    exact (mem_ends_iff h).mpr ⟨m, hm, rfl, rfl⟩

/-- The pattern has at most one match at a place. -/
def Single (p : Pattern) : Prop :=
  ∀ x, ∀ y ∈ p.ends x, ∀ z ∈ p.ends x, y = z

namespace Single

theorem one (r : Char → Bool) : (one r).Single := by
  intro x y hy z hz
  obtain ⟨c, s, hxc, -, rfl⟩ := mem_ends_one.mp hy
  obtain ⟨d, t, hxd, -, rfl⟩ := mem_ends_one.mp hz
  obtain ⟨rfl, rfl⟩ := List.cons.inj (hxc.symm.trans hxd)
  rfl

theorem seq (hp : p.Single) (hq : q.Single) : (p.seq q).Single := by
  intro x y hy z hz
  obtain ⟨m, hm, hy⟩ := mem_ends_seq.mp hy
  obtain ⟨n, hn, hz⟩ := mem_ends_seq.mp hz
  obtain rfl := hp x m hm n hn
  exact hq m y hy z hz

theorem all_ones (rs : List (Char → Bool)) : (all (rs.map Pattern.one)).Single := by
  induction rs with
  | nil =>
    intro x y hy z hz
    obtain ⟨w, rest, hxw, hw, rfl⟩ := mem_runs.mp hy
    obtain ⟨v, rest', hxv, hv, rfl⟩ := mem_runs.mp hz
    obtain rfl : w = [] := List.eq_nil_iff_forall_not_mem.mpr fun c hc => absurd (hw c hc) (by simp)
    obtain rfl : v = [] := List.eq_nil_iff_forall_not_mem.mpr fun c hc => absurd (hv c hc) (by simp)
    simp only [List.nil_append] at hxw hxv
    rw [← hxw, ← hxv]
  | cons r rs ih =>
    cases rs with
    | nil => exact one r
    | cons r' rs => exact (one r).seq ih

theorem letters (s : String) : (letters s).Single := by
  have h := all_ones (s.toList.map sameLetter)
  rwa [List.map_map] at h

/-- White space before a pattern that starts with none. -/
theorem space (hp : p.Single)
    (hwhite : ∀ x, ∀ y ∈ p.ends x, ∃ c s, x.after = c :: s ∧ isWhite c = false) :
    (Pattern.seq Pattern.space p).Single := by
  intro x y hy z hz
  obtain ⟨m, hm, hy⟩ := mem_ends_seq.mp hy
  obtain ⟨n, hn, hz⟩ := mem_ends_seq.mp hz
  obtain ⟨w, rest, hxw, hw, rfl⟩ := mem_runs.mp hm
  obtain ⟨v, rest', hxv, hv, rfl⟩ := mem_runs.mp hn
  obtain ⟨c, s, rfl, hc⟩ := hwhite _ y hy
  obtain ⟨d, t, rfl, hd⟩ := hwhite _ z hz
  obtain ⟨rfl, rfl, rfl⟩ := white_append_inj hw hv hc hd (hxw.symm.trans hxv)
  exact hp _ y hy z hz

end Single

end Pattern

open Pattern

/-! ## The words of a comment -/

/-- How a comment starts. -/
def opener : Pattern :=
  either (exactly "--") (exactly "/*")

/-- What comes between the start of a comment and the first character of a name, with that character. -/
def naming : Pattern :=
  all [space, letters "sqlpretty:", space, letters "dialect", space, char '=', space, one isNameChar]

/-- A comment up to the first character of the name of a dialect. -/
def hintName : Pattern :=
  seq opener naming

theorem ends_hint (x : Place) : (seq hint (one isNameChar)).ends x = hintName.ends x := by
  simp only [hint, hintName, opener, naming, all, Pattern.ends, List.flatMap_assoc]

theorem exists_of_mem_splitOn {sep : Char} {cs line : List Char} (h : line ∈ splitOn sep cs) :
    ∃ a b, cs = a ++ (line ++ b) := by
  obtain ⟨first, rest, hsplit, rfl⟩ := splitOn_spec sep cs
  rw [hsplit] at h
  rcases List.mem_cons.mp h with rfl | hmem
  · exact ⟨[], rest.flatMap (sep :: ·), rfl⟩
  · obtain ⟨before, after, rfl⟩ := List.append_of_mem hmem
    exact ⟨first ++ before.flatMap (sep :: ·) ++ [sep], after.flatMap (sep :: ·), by simp⟩

theorem firstEnd?_hint (before : Option Char) (line : List Char) :
    (seq hint (one isNameChar)).firstEnd? before line = hintName.firstEnd? before line := by
  induction line generalizing before with
  | nil => rw [Pattern.firstEnd?, Pattern.firstEnd?, ends_hint]
  | cons c cs ih => rw [Pattern.firstEnd?, Pattern.firstEnd?, ends_hint, ih]

/-! ## The first match of a line -/

/-- Matches of the pattern start with a character other than white space. -/
def Pattern.Solid (p : Pattern) : Prop :=
  ∀ x, ∀ y ∈ p.ends x, ∃ c s, x.after = c :: s ∧ isWhite c = false

theorem Pattern.Solid.one {r : Char → Bool} (hr : ∀ c, r c = true → isWhite c = false) :
    (one r).Solid := by
  intro x y hy
  obtain ⟨c, s, hx, hc, -⟩ := mem_ends_one.mp hy
  exact ⟨c, s, hx, hr c hc⟩

theorem Pattern.Solid.seq {p : Pattern} (hp : p.Solid) (q : Pattern) : (p.seq q).Solid := by
  intro x y hy
  obtain ⟨m, hm, -⟩ := mem_ends_seq.mp hy
  exact hp x m hm

theorem solid_letter {l : Char} (hl : isKeywordChar l = true) : (one (sameLetter l)).Solid :=
  .one fun _ hc => not_isWhite_of_isWord (isWord_of_sameLetter hl hc)

theorem solid_char {c : Char} (hc : isWhite c = false) : (char c).Solid :=
  .one fun d hd => by rw [eq_of_beq hd, hc]

theorem isNameChar_not_white {c : Char} (hc : isNameChar c = true) : isWhite c = false := by
  rw [Bool.eq_false_iff]
  intro hw
  revert hc
  exact white_induction (p := fun c => isNameChar c = true → False) (by decide) hw

theorem single_opener : opener.Single := by
  have hdash : (exactly "--").Single := .seq (.one _) (.one _)
  have hstar : (exactly "/*").Single := .seq (.one _) (.one _)
  have hfirst : ∀ {c : Char} {q : Pattern} {x y : Place}, y ∈ (seq (char c) q).ends x →
      x.after.head? = some c := by
    intro c q x y hy
    obtain ⟨m, hm, -⟩ := mem_ends_seq.mp hy
    obtain ⟨d, s, hx, hd, -⟩ := mem_ends_one.mp hm
    rw [hx, eq_of_beq hd]
    rfl
  intro x y hy z hz
  rcases List.mem_append.mp hy with hy' | hy' <;> rcases List.mem_append.mp hz with hz' | hz'
  · exact hdash x y hy' z hz'
  · exact absurd ((hfirst hy').symm.trans (hfirst hz')) (by decide)
  · exact absurd ((hfirst hy').symm.trans (hfirst hz')) (by decide)
  · exact hstar x y hy' z hz'

/-- A comment has at most one name at a place. -/
theorem single_hintName : hintName.Single := by
  have hname : (one isNameChar).Single ∧ (one isNameChar).Solid :=
    ⟨.one _, .one fun _ => isNameChar_not_white⟩
  have hequal : (all [char '=', space, one isNameChar]).Single :=
    .seq (.one _) (.space hname.1 hname.2)
  have hdialect : (all [letters "dialect", space, char '=', space, one isNameChar]).Single :=
    .seq (.letters _) (.space hequal ((solid_char (by decide)).seq _))
  have hword : (all [letters "sqlpretty:", space, letters "dialect", space, char '=', space,
      one isNameChar]).Single :=
    .seq (.letters _) (.space hdialect (((solid_letter (l := 'd') (by decide)).seq _).seq _))
  exact single_opener.seq (.space hword (((solid_letter (l := 's') (by decide)).seq _).seq _))

theorem solid_hintName : hintName.Solid := by
  refine Pattern.Solid.seq ?_ _
  intro x y hy
  rcases List.mem_append.mp hy with hy | hy
  · exact ((solid_char (by decide)).seq _) x y hy
  · exact ((solid_char (by decide)).seq _) x y hy

/-- What comes before the name of a dialect. -/
theorem hintName_spec {m : List Char} (h : hintName.Reads m) :
    ∃ c d t n, m = c :: d :: (t ++ [n]) ∧ (d = '-' ∨ d = '*') ∧ t ≠ [] ∧ '*' ∉ t ++ [n] ∧
      '-' ∉ t ++ [n] ∧ isNameChar n = true := by
  obtain ⟨o, t, rfl, ho, ht⟩ := h
  have hstar := not_mem_of_rejects (p := naming) (e := '*') (by decide) ht
  have hdash := not_mem_of_rejects (p := naming) (e := '-') (by decide) ht
  obtain ⟨c, d, rfl, hd⟩ : ∃ c d, o = [c, d] ∧ (d = '-' ∨ d = '*') := by
    rcases ho with ⟨a, b, rfl, ⟨c, rfl, -⟩, d, rfl, hd⟩ | ⟨a, b, rfl, ⟨c, rfl, -⟩, d, rfl, hd⟩
    · exact ⟨c, d, rfl, .inl (eq_of_beq hd)⟩
    · exact ⟨c, d, rfl, .inr (eq_of_beq hd)⟩
  simp only [naming, reads_all_cons, reads_all_nil] at ht
  obtain ⟨w₁, _, rfl, -, k, _, rfl, -, w₂, _, rfl, -, l, _, rfl, -, w₃, _, rfl, -, _, _, rfl,
    ⟨e, rfl, -⟩, w₄, _, rfl, -, _, _, rfl, ⟨n, rfl, hn⟩, rfl⟩ := ht
  refine ⟨c, d, w₁ ++ (k ++ (w₂ ++ (l ++ (w₃ ++ ([e] ++ w₄))))), n, by simp, hd, by simp, ?_, ?_, hn⟩
  · simpa using hstar
  · simpa using hdash

/-- No match goes on past a place at which another one starts. -/
theorem not_hintName_inside {m a b c : List Char} (hm : hintName.Reads m)
    (h : hintName.Reads (a ++ (m ++ c) ++ b)) (ha : a ≠ []) : False := by
  obtain ⟨_, e, t, n, rfl, he, -⟩ := hintName_spec hm
  obtain ⟨_, _, t', n', heq, -, -, hstar, hdash, -⟩ := hintName_spec h
  obtain ⟨f, a, rfl⟩ := List.exists_cons_of_ne_nil ha
  have hmem : e ∈ t' ++ [n'] := by
    cases a with
    | nil =>
      simp only [List.cons_append, List.nil_append, List.cons.injEq] at heq
      rw [← heq.2.2]
      simp
    | cons g a =>
      simp only [List.cons_append, List.cons.injEq] at heq
      rw [← heq.2.2]
      simp
  rcases he with rfl | rfl
  · exact hdash hmem
  · exact hstar hmem

theorem exists_of_firstEnd? {p : Pattern} (hp : p.edgeless = true) {before : Option Char}
    {a : List Char} {place : Place} (h : p.firstEnd? before a = some place) :
    ∃ pre m, p.Reads m ∧ a = pre ++ (m ++ place.after) ∧
      place.before = (pre ++ m).getLast?.or before := by
  induction a generalizing before with
  | nil =>
    rw [Pattern.firstEnd?] at h
    obtain ⟨m, hm, ha, hbefore⟩ := (mem_ends_iff hp).mp (List.mem_of_mem_head? h)
    exact ⟨[], m, hm, ha, hbefore⟩
  | cons c cs ih =>
    rw [Pattern.firstEnd?] at h
    split at h
    · next found _ hends =>
      obtain rfl := Option.some.inj h
      obtain ⟨m, hm, ha, hbefore⟩ := (mem_ends_iff hp).mp
        (show found ∈ p.ends ⟨before, c :: cs⟩ by rw [hends]; simp)
      exact ⟨[], m, hm, ha, hbefore⟩
    · obtain ⟨pre, m, hm, rfl, hbefore⟩ := ih h
      exact ⟨c :: pre, m, hm, rfl, by rw [hbefore, List.cons_append, getLast?_cons_or]⟩

/-- The first name in a text is the first name in whatever goes on after it. -/
theorem firstEnd?_append {before : Option Char} {a r : List Char} {place : Place}
    (h : hintName.firstEnd? before a = some place) :
    hintName.firstEnd? before (a ++ r) = some ⟨place.before, place.after ++ r⟩ := by
  have hfree : hintName.edgeless = true := by decide
  induction a generalizing before with
  | nil =>
    obtain ⟨pre, m, hm, hnil, -⟩ := exists_of_firstEnd? hfree h
    obtain ⟨_, _, _, _, rfl, -⟩ := hintName_spec hm
    simp at hnil
  | cons c cs ih =>
    rw [List.cons_append, Pattern.firstEnd?]
    rw [Pattern.firstEnd?] at h
    cases hends : hintName.ends ⟨before, c :: cs⟩ with
    | cons found rest =>
      rw [hends] at h
      obtain rfl : found = place := Option.some.inj h
      obtain ⟨m, hm, ha, hbefore⟩ := (mem_ends_iff hfree).mp
        (show found ∈ hintName.ends ⟨before, c :: cs⟩ by rw [hends]; simp)
      have hmem : (⟨found.before, found.after ++ r⟩ : Place) ∈
          hintName.ends ⟨before, c :: (cs ++ r)⟩ := by
        refine (mem_ends_iff hfree).mpr ⟨m, hm, ?_, hbefore⟩
        change c :: cs = m ++ found.after at ha
        change c :: (cs ++ r) = m ++ (found.after ++ r)
        rw [← List.cons_append, ha, List.append_assoc]
      cases hends' : hintName.ends ⟨before, c :: (cs ++ r)⟩ with
      | nil => rw [hends'] at hmem; cases hmem
      | cons found' rest' =>
        exact congrArg some (single_hintName _ _ (by rw [hends']; simp) _ hmem)
    | nil =>
      rw [hends] at h
      obtain ⟨pre, m, hm, hcs, -⟩ := exists_of_firstEnd? hfree h
      have hends' : hintName.ends ⟨before, c :: (cs ++ r)⟩ = [] := by
        refine List.eq_nil_iff_forall_not_mem.mpr fun x' hx' => ?_
        obtain ⟨m', hm', ha, -⟩ := (mem_ends_iff hfree).mp hx'
        change (c :: cs) ++ r = m' ++ x'.after at ha
        rcases List.append_eq_append_iff.mp ha with ⟨k, rfl, -⟩ | ⟨k, hk, -⟩
        · -- such a match would hold the one that is found
          rw [hcs] at hm'
          exact not_hintName_inside (a := c :: pre) hm (by simpa using hm') (by simp)
        · have : (⟨m'.getLast?.or before, k⟩ : Place) ∈ hintName.ends ⟨before, c :: cs⟩ :=
            (mem_ends_iff hfree).mpr ⟨m', hm', hk, rfl⟩
          rw [hends] at this
          cases this
      rw [hends']
      exact ih h

/-! ## The name in a line -/

theorem hintedName?_eq_some {line : List Char} {name : String} :
    hintedName? line = some name ↔ ∃ place c, hintName.firstEnd? none line = some place ∧
      place.before = some c ∧ String.ofList (c :: place.after.takeWhile isNameChar) = name := by
  simp only [hintedName?, firstEnd?_hint, Option.bind_eq_some_iff, Option.map_eq_some_iff]
  constructor
  · rintro ⟨place, hfound, c, hc, rfl⟩
    exact ⟨place, c, hfound, hc, rfl⟩
  · rintro ⟨place, c, hfound, hc, rfl⟩
    exact ⟨place, hfound, c, hc, rfl⟩

/-- A line names a dialect if it holds the start of such a comment. -/
theorem hintedName?_eq_none {line : List Char} :
    hintedName? line = none ↔ hintName.occursIn line = false := by
  rw [hintedName?, firstEnd?_hint, Pattern.occursIn]
  cases h : hintName.firstEnd? none line with
  | none => simp
  | some place =>
    obtain ⟨pre, m, hm, -, hbefore⟩ := exists_of_firstEnd? (by decide) h
    obtain ⟨_, _, _, _, rfl, -⟩ := hintName_spec hm
    simp [hbefore]

/-- What follows the name in a line does not change it. -/
theorem hintedName?_append {a r : List Char} {name : String} (h : hintedName? a = some name)
    (hr : r.head?.any isNameChar = false) : hintedName? (a ++ r) = some name := by
  obtain ⟨place, c, hfound, hc, rfl⟩ := hintedName?_eq_some.mp h
  refine hintedName?_eq_some.mpr ⟨_, c, firstEnd?_append hfound, hc, ?_⟩
  exact congrArg (fun cs => String.ofList (c :: cs)) (Scan.takeWhile_append_stop _ hr)

theorem firstEnd?_before (before before' : Option Char) (line : List Char) :
    hintName.firstEnd? before line = hintName.firstEnd? before' line := by
  cases line <;> rfl

/-- White space before a comment does not matter. -/
theorem hintedName?_white {w : List Char} (hw : AllWhite w) (line : List Char) :
    hintedName? (w ++ line) = hintedName? line := by
  have hskip : ∀ before, hintName.firstEnd? before (w ++ line) = hintName.firstEnd? none line := by
    induction w with
    | nil => exact fun before => firstEnd?_before before none line
    | cons c w ih =>
      intro before
      have hends : hintName.ends ⟨before, c :: (w ++ line)⟩ = [] := by
        refine List.eq_nil_iff_forall_not_mem.mpr fun x' hx' => ?_
        obtain ⟨d, s, hd, hwhite⟩ := solid_hintName _ x' hx'
        obtain ⟨rfl, -⟩ := List.cons.inj hd
        rw [hw c (by simp)] at hwhite
        cases hwhite
      rw [List.cons_append, Pattern.firstEnd?, hends]
      exact ih (fun d hd => hw d (List.mem_cons_of_mem _ hd)) _
  rw [hintedName?, hintedName?, firstEnd?_hint, firstEnd?_hint, hskip]

/-- White space after a comment does not matter. -/
theorem hintedName?_append_white {w : List Char} (hw : AllWhite w) (line : List Char) :
    hintedName? (line ++ w) = hintedName? line := by
  cases h : hintedName? line with
  | some name =>
    refine hintedName?_append h ?_
    cases w with
    | nil => rfl
    | cons c w =>
      rw [List.head?_cons, Option.any_some, Bool.eq_false_iff]
      intro hc
      have := hw c (by simp)
      rw [isNameChar_not_white hc] at this
      cases this
  | none =>
    rw [hintedName?_eq_none, Bool.eq_false_iff] at h ⊢
    intro hocc
    obtain ⟨a, m, b, hline, hm⟩ := (occursIn_iff_reads (by decide)).mp hocc
    refine h ((occursIn_iff_reads (by decide)).mpr ?_)
    obtain ⟨c, d, t, n, rfl, -, -, -, -, hn⟩ := hintName_spec hm
    -- The match ends with a character of a name, which is not in the white space.
    have hwhite := isNameChar_not_white hn
    have hsplit : line ++ w = (a ++ c :: d :: (t ++ [n])) ++ b := by rw [hline]; simp
    rcases List.append_eq_append_iff.mp hsplit with ⟨k, hk, hwk⟩ | ⟨k, hk, -⟩
    · cases k using List.reverseRecOn with
      | nil => exact ⟨a, _, [], by rw [← List.append_nil line, ← hk]; simp, hm⟩
      | append_singleton k e =>
        have he : e = n := by
          have hlast := congrArg List.getLast? hk
          simpa [List.getLast?_append, List.getLast?_cons] using hlast.symm
        rw [hw n (by rw [hwk, he]; simp)] at hwhite
        cases hwhite
    · exact ⟨a, _, k, by rw [hk]; simp, hm⟩

/-- The dialect that a line names. -/
def lineHint? (line : List Char) : Option Dialect :=
  (hintedName? line).bind Dialect.ofName?

theorem lineHint?_white {w : List Char} (hw : AllWhite w) (line : List Char) :
    lineHint? (w ++ line) = lineHint? line := by
  rw [lineHint?, hintedName?_white hw, lineHint?]

theorem lineHint?_append_white {w : List Char} (hw : AllWhite w) (line : List Char) :
    lineHint? (line ++ w) = lineHint? line := by
  rw [lineHint?, hintedName?_append_white hw, lineHint?]

theorem lineHint?_trim (line : List Char) : lineHint? (dropWhileEnd isWhite line) = lineHint? line := by
  obtain ⟨w, hline, hw⟩ := dropWhileEnd_spec isWhite line
  conv_rhs => rw [hline, lineHint?_append_white hw]

theorem lineHint?_bareLine (line : List Char) : lineHint? (bareLine line) = lineHint? line := by
  have hsplit := List.takeWhile_append_dropWhile (p := isWhite) (l := line)
  have hwhite : AllWhite (line.takeWhile isWhite) := fun c hc => List.mem_takeWhile_imp hc
  rw [bareLine, lineHint?_trim]
  conv_rhs => rw [← hsplit, lineHint?_white hwhite]

theorem lineHint?_indentLine {margin : List Char} (hmargin : AllWhite margin) (line : List Char) :
    lineHint? (indentLine margin line) = lineHint? line := by
  rw [← lineHint?_bareLine line, indentLine]
  split
  · next hempty => rw [List.isEmpty_iff.mp hempty]
  · have hwhite : AllWhite (margin ++ [' ']) := by
      intro c hc
      rcases List.mem_append.mp hc with hc | hc
      · exact hmargin c hc
      · rw [List.mem_singleton.mp hc]
        decide
    rw [List.append_cons, lineHint?_white hwhite]

/-! ## The lines of a text -/

/-- The dialect that the first line of a text names, of those that name one. -/
def textHint? (cs : List Char) : Option Dialect :=
  (splitOn '\n' cs).findSome? lineHint?

/-- A text without what starts a comment names no dialect. -/
theorem textHint?_eq_none {cs : List Char} (hdash : '-' ∉ cs) (hstar : '*' ∉ cs) :
    textHint? cs = none := by
  rw [textHint?, List.findSome?_eq_none_iff]
  intro line hline
  obtain ⟨before, after, rfl⟩ := exists_of_mem_splitOn hline
  suffices h : hintedName? line = none by rw [lineHint?, h]; rfl
  rw [hintedName?_eq_none, Bool.eq_false_iff]
  intro hocc
  obtain ⟨a, m, b, rfl, hm⟩ := (occursIn_iff_reads (by decide)).mp hocc
  obtain ⟨c, d, t, n, rfl, hd, -⟩ := hintName_spec hm
  rcases hd with rfl | rfl
  · exact hdash (by simp)
  · exact hstar (by simp)

theorem textHint?_allWhite {w : List Char} (hw : AllWhite w) : textHint? w = none :=
  textHint?_eq_none (fun h => absurd (hw _ h) (by decide)) fun h => absurd (hw _ h) (by decide)

theorem textHint?_line {line : List Char} (h : '\n' ∉ line) : textHint? line = lineHint? line := by
  rw [textHint?, splitOn_of_not_mem h, List.findSome?_cons, List.findSome?_nil]
  cases lineHint? line <;> rfl

theorem textHint?_line_append {line : List Char} (h : '\n' ∉ line) (cs : List Char) :
    textHint? (line ++ '\n' :: cs) = (lineHint? line).or (textHint? cs) := by
  rw [textHint?, splitOn_append h, List.findSome?_cons, textHint?]
  cases lineHint? line <;> rfl

/-- White space at the end of a text names no dialect, and it changes no name. -/
theorem textHint?_append_white (cs : List Char) {w : List Char} (hw : AllWhite w) :
    textHint? (cs ++ w) = textHint? cs := by
  obtain ⟨first, rest, hsplit, hcs⟩ := splitOn_spec '\n' cs
  have hlines : ∀ line ∈ first :: rest, '\n' ∉ line := hsplit ▸ not_mem_splitOn cs
  clear hsplit
  subst hcs
  induction rest generalizing first with
  | nil =>
    have hfirst := hlines first List.mem_cons_self
    rw [List.flatMap_nil, List.append_nil, textHint?_line hfirst]
    by_cases hfeed : '\n' ∈ w
    · obtain ⟨u, v, rfl, hu⟩ := List.eq_append_cons_of_mem hfeed
      have hwhite : AllWhite u ∧ AllWhite v :=
        ⟨fun c hc => hw c (by simp [hc]), fun c hc => hw c (by simp [hc])⟩
      have hline : '\n' ∉ first ++ u := by simp [hfirst, hu]
      rw [← List.append_assoc, textHint?_line_append hline, textHint?_allWhite hwhite.2, Option.or_none,
        lineHint?_append_white hwhite.1]
    · rw [textHint?_line (by simp [hfirst, hfeed]), lineHint?_append_white hw]
  | cons line rest ih =>
    have hfirst := hlines first List.mem_cons_self
    rw [List.flatMap_cons, List.append_assoc, List.cons_append, List.cons_append,
      textHint?_line_append hfirst, textHint?_line_append hfirst,
      ih line fun l hl => hlines l (List.mem_cons_of_mem _ hl)]

theorem textHint?_trim (cs : List Char) : textHint? (dropWhileEnd isWhite cs) = textHint? cs := by
  obtain ⟨w, hcs, hw⟩ := dropWhileEnd_spec isWhite cs
  conv_rhs => rw [hcs, textHint?_append_white _ hw]

/-- A comment that is indented anew names the same dialect. -/
theorem textHint?_reindent {unit : String} (hunit : AllWhite unit.toList)
    (hfeed : '\n' ∉ unit.toList) (indent : Nat) (text : String) :
    textHint? (Layout.State.reindent unit indent text).toList = textHint? text.toList := by
  obtain ⟨first, rest, hsplit, -⟩ := splitOn_spec '\n' text.toList
  have hlines : ∀ line ∈ first :: rest, '\n' ∉ line := hsplit ▸ not_mem_splitOn text.toList
  have hmargin := forall_mem_margin hunit indent
  set margin := (String.join (List.replicate indent unit)).toList
  have hfirst : '\n' ∉ dropWhileEnd isWhite first := by
    obtain ⟨w, heq, -⟩ := dropWhileEnd_spec isWhite first
    exact fun hmem => hlines first List.mem_cons_self (heq ▸ List.mem_append_left w hmem)
  have hrest : ∀ line ∈ rest.map (indentLine margin), '\n' ∉ line :=
    List.forall_mem_map.mpr fun line hline =>
      not_mem_indentLine (not_mem_margin hfeed indent) (hlines line (List.mem_cons_of_mem _ hline))
  have hreindent : (Layout.State.reindent unit indent text).toList =
      dropWhileEnd isWhite first ++ (rest.map (indentLine margin)).flatMap ('\n' :: ·) := by
    rw [toList_reindent unit indent hsplit, List.flatMap_map]
    rfl
  have hsame : lineHint? ∘ indentLine margin = lineHint? := funext (lineHint?_indentLine hmargin)
  rw [textHint?, textHint?, hreindent, splitOn_flatMap hfirst hrest, hsplit, List.findSome?_cons,
    List.findSome?_cons, lineHint?_trim, List.findSome?_map, hsame]

end SqlFormat.Detect

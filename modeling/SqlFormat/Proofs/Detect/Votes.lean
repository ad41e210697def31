import SqlFormat.Detect
import SqlFormat.Proofs.Detect.Matches

/-!
# Votes for texts that are spaced anew

Each pattern relies on few neighbours: characters of words, and the characters of a mark of its
dialect. A text that keeps these together keeps the votes for the dialect. The winner is the same if
it loses no votes and no other dialect gains any.

Results: `rules_lead`, `votes_le`, `winner_eq`, `elected_eq`.
-/

namespace SqlFormat.Detect

open Text Pattern

/-! ## What the patterns of a dialect rely on -/

/-- Neighbouring characters that are read as part of one mark of the dialect. -/
def clings : Dialect → Char → Char → Bool
  | .postgresql, c, d =>
    c == '$' && (d == '$' || d.isAlpha || d == '_') || isWord c && d == '$' ||
      c == ':' && d == ':' || c == '-' && d == '>' || c == '>' && d == '>'
  | .plsql, c, d =>
    c == ':' && d == '=' || c == '%' && (sameLetter 'r' d || sameLetter 't' d)
  | _, _, _ => false

theorem leads_nameStart {bound : Char → Char → Bool} :
    Leads bound (fun c => c.isAlpha || c == '_') nameStart isWord := by
  have hword : ∀ c : Char, (c.isAlpha || c == '_') = true → isWord c = true := by
    intro c hc
    refine isWord_of_isKeywordChar ?_
    simp only [Bool.or_eq_true] at hc
    simp only [isKeywordChar, Char.isAlphanum, Bool.or_eq_true]
    tauto
  have hcase : IgnoresCase fun c : Char => c.isAlpha || c == '_' :=
    ignoresCase_isAlpha.or (ignoresCase_eq (by decide))
  exact (Leads.one hcase fun c hc => not_isWhite_of_isWord (hword c hc)).mono (fun _ hc => hc) hword

/-- A dollar quote with a name. -/
theorem leads_dollarName : Leads (clings .postgresql) (· == '$')
    (all [char '$', nameStart, .many isWord, char '$']) (· == '$') := by
  refine (leads_char (by decide)).seq (.touch (leads_nameStart.seq (.seq (.many ignoresCase_isWord
    (fun _ => not_isWhite_of_isWord) (fun _ hc => hc) ?_) (.touch (leads_char (by decide)) ?_))) ?_)
  · exact bound_isWord (fun _ hc => hc) fun _ hc => hc
  · intro c d hc hd
    rw [eq_of_beq hd]
    refine .inr ?_
    simp [clings, ignoresCase_isWord c, hc]
  · intro c d hc hd
    rw [eq_of_beq hc]
    have hcase : (d.toLower == '_') = (d == '_') := ignoresCase_eq (by decide) d
    simp only [Bool.or_eq_true] at hd
    refine .inr ?_
    simp only [clings, isAlpha_toLower, hcase, Bool.or_eq_true, Bool.and_eq_true, beq_iff_eq]
    rcases hd with hd | hd
    · simp [hd]
    · simp [eq_of_beq hd]

/-- The type of a column or of a row. -/
theorem leads_attribute : ∃ P, Leads (clings .plsql) (· == '%')
    (all [char '%', opt (letters "row"), letters "type", boundary]) P := by
  have hrow : Leads (clings .plsql) _ _ _ :=
    leads_letters_cons 'r' ['o', 'w'] (forall_mem_of_all (by decide))
  have htype : Leads (clings .plsql) _ _ _ :=
    leads_letters_cons 't' ['y', 'p', 'e'] (forall_mem_of_all (by decide))
  have hends := htype.seq (.boundary fun _ hc => hc)
  have hQ : ∀ c, sameLetter 't' c = true → isWord c = true :=
    fun _ hc => isWord_of_sameLetter (by decide) hc
  have hopt : Leads (clings .plsql) (fun c => sameLetter 'r' c || sameLetter 't' c)
      (seq (opt (letters "row")) (seq (letters "type") boundary)) isWord :=
    Leads.opt (hrow.mono (by simp +contextual) fun _ hc => hc)
      (hends.mono (by simp +contextual) fun _ hc => hc)
      (.touch hends (bound_isWord (fun _ hc => hc) hQ))
  refine ⟨_, (leads_char (by decide)).seq (.touch hopt ?_)⟩
  intro c d hc hd
  rw [eq_of_beq hc]
  refine .inr ?_
  simp only [clings, ignoresCase_sameLetter _ d, hd, Bool.and_true]
  rfl

/-- A word that may have a prefix. -/
theorem leads_prefixed {bound : Char → Char → Bool} {first second : String}
    (h₁ : isPlainWord first = true) (h₂ : isPlainWord second = true) :
    Leads bound isWord (all [boundary, opt (letters first), letters second, boundary]) isWord :=
  have hword : Bound bound isWord isWord := bound_isWord (fun _ hc => hc) fun _ hc => hc
  have hends := (leads_letters h₂).seq (.boundary fun _ hc => hc)
  (Leads.opt (leads_letters h₁) hends (.touch hends hword)).boundary fun _ hc => hc

/-- A word before a character, with any white space between the two. -/
theorem leads_before {bound : Char → Char → Bool} {word : String} {c : Char}
    (h : isPlainWord word = true) (hc : c.isAlpha = false ∧ isWhite c = false) :
    Leads bound isWord (all [boundary, letters word, space, char c]) (· == c) :=
  ((leads_letters h).seq (.space (leads_char hc))).boundary fun _ hc => hc

/-- Two numbers, as some dialects limit results. -/
theorem leads_limit {bound : Char → Char → Bool} : Leads bound isWord
    (all [boundary, letters "limit", space₁, digits₁, space, char ',', space, digits₁]) isWord := by
  have hcomma : Leads bound (· == ',') (all [char ',', space, digits₁]) isWord :=
    (leads_char (by decide)).seq (.space leads_digits)
  exact ((leads_letters (by decide)).seq (.space₁ (leads_digits.seq (.space hcomma))
    (fun _ hc => hc) fun _ hc => hc)).boundary fun _ hc => hc

theorem leads_fetch {bound : Char → Char → Bool} : Leads bound isWord
    (all [boundary, letters "fetch", space₁, letters "first", space₁, digits₁, space₁,
      letters "row", opt (letters "s"), space₁, letters "only", boundary]) isWord := by
  have hword : ∀ c : Char, isWord c = true → isWord c = true := fun _ hc => hc
  have honly : Leads bound isWord (seq (letters "only") boundary) isWord :=
    (leads_letters (by decide)).seq (.boundary hword)
  have hrows : Leads bound isWord
      (all [letters "row", opt (letters "s"), space₁, letters "only", boundary]) isWord :=
    (leads_letters (by decide)).seq (.seq (.opt (.touch (leads_letters (by decide))
      (bound_isWord hword hword))) (.space₁ honly hword hword))
  exact ((leads_letters (by decide)).seq (.space₁ ((leads_letters (by decide)).seq
    (.space₁ (leads_digits.seq (.space₁ hrows hword hword)) hword hword)) hword hword)).boundary hword

theorem leads_cast : Leads (clings .postgresql) (· == ':')
    (all [exactly "::", space, nameStart]) isWord :=
  Leads.seq (leads_exactly ':' [':'] (forall_mem_of_all (by decide)) (by decide))
    (.space leads_nameStart)

theorem leads_sqlite {bound : Char → Char → Bool} : Leads bound isWord
    (all [boundary, letters "sqlite_", one isWord]) isWord := by
  have hone : Leads bound isWord (one isWord) isWord :=
    .one ignoresCase_isWord fun _ => not_isWhite_of_isWord
  exact ((leads_letters (by decide)).seq (.touch hone (bound_isWord (fun _ hc => hc)
    fun _ hc => hc))).boundary fun _ hc => hc

/-- Every pattern can be followed in a text that keeps the marks of its dialect together. -/
theorem rules_lead : ∀ rule ∈ rules, ∃ Q P, Leads (clings rule.1) Q rule.2 P := by
  have hphrase : ∀ {bound : Char → Char → Bool} (w : String) (ws : List String),
      (w :: ws).all isPlainWord = true → ∃ Q P, Leads bound Q (phrase (w :: ws)) P :=
    fun w ws h => ⟨_, _, leads_phrase (List.all_eq_true.mp h)⟩
  simp only [rules, List.forall_mem_cons, List.not_mem_nil, false_implies, implies_true, and_true]
  refine ⟨⟨_, _, leads_exactly '$' ['$'] (forall_mem_of_all (by decide)) (by decide)⟩,
    ⟨_, _, leads_dollarName⟩, ⟨_, _, leads_cast⟩, hphrase _ _ (by decide), hphrase _ _ (by decide),
    hphrase _ _ (by decide), ⟨_, _, leads_prefixed (by decide) (by decide)⟩,
    ⟨_, _, leads_exactly '-' ['>', '>'] (forall_mem_of_all (by decide)) (by decide)⟩,
    ⟨_, _, leads_char (by decide)⟩, hphrase _ _ (by decide), ⟨_, _, leads_before (by decide) (by decide)⟩,
    hphrase _ _ (by decide), hphrase _ _ (by decide), ⟨_, _, leads_limit⟩, hphrase _ _ (by decide),
    hphrase _ _ (by decide), hphrase _ _ (by decide), ⟨_, _, leads_sqlite⟩,
    ⟨_, _, leads_exactly ':' ['='] (forall_mem_of_all (by decide)) (by decide)⟩,
    ⟨_, leads_attribute⟩, hphrase _ _ (by decide), hphrase _ _ (by decide), hphrase _ _ (by decide),
    ⟨_, _, leads_before (by decide) (by decide)⟩, hphrase _ _ (by decide),
    ⟨_, _, leads_prefixed (by decide) (by decide)⟩, ⟨_, _, leads_before (by decide) (by decide)⟩,
    hphrase _ _ (by decide), hphrase _ _ (by decide), hphrase _ _ (by decide), ⟨_, _, leads_fetch⟩⟩

/-! ## Votes -/

/-- A text that keeps the marks of a dialect together keeps the votes for it. -/
theorem votes_le {dialect : Dialect} {s t : List Char}
    (h : Mirrors (Keeps (clings dialect)) none s t) : votes s dialect ≤ votes t dialect := by
  rw [votes, votes, ← List.countP_eq_length_filter, ← List.countP_eq_length_filter]
  refine List.countP_mono_left fun rule hrule hs => ?_
  simp only [Bool.and_eq_true, beq_iff_eq] at hs ⊢
  obtain ⟨rfl, hs⟩ := hs
  obtain ⟨Q, P, hlead⟩ := rules_lead rule hrule
  exact ⟨rfl, hlead.occursIn h hs⟩

/-- The dialect with the most votes, and its votes. -/
def winner (count : Dialect → Nat) : Dialect × Nat :=
  Dialect.all.foldl (fun best d => better best d (count d)) (.standard, 0)

theorem snd_better (best : Dialect × Nat) (d : Dialect) (count : Nat) :
    (better best d count).2 = max best.2 count := by
  rw [better]
  split
  · next h => exact (max_eq_right h.le).symm
  · next h => exact (max_eq_left (not_lt.mp h)).symm

theorem fst_foldl_better (count : Dialect → Nat) (ds : List Dialect) (best : Dialect × Nat) :
    (ds.foldl (fun best d => better best d (count d)) best).1 = best.1 ∨
      (ds.foldl (fun best d => better best d (count d)) best).1 ∈ ds := by
  induction ds generalizing best with
  | nil => exact .inl rfl
  | cons d ds ih =>
    rw [List.foldl_cons]
    rcases ih (better best d (count d)) with h | h
    · rw [h, better]
      split
      · exact .inr (by simp)
      · exact .inl rfl
    · exact .inr (List.mem_cons_of_mem _ h)

/-- Two counts on their way to the same winner: it is still ahead, or it has led in both since. -/
def Abreast (w : Dialect) (ds : List Dialect) (best best' : Dialect × Nat) : Prop :=
  (w ∈ ds ∧ best.1 ≠ w ∧ best'.2 ≤ best.2) ∨
    (w ∉ ds ∧ best.1 = w ∧ best'.1 = w ∧ best.2 ≤ best'.2 ∧ (best.2 = 0 → best'.2 = 0))

/-- A dialect that wins still wins if it loses no votes and no other gains any. -/
theorem foldl_better {count count' : Dialect → Nat} {w : Dialect} (hw : count w ≤ count' w)
    (hothers : ∀ d ≠ w, count' d ≤ count d) {ds : List Dialect} (hds : ds.Nodup)
    {best best' : Dialect × Nat} (h : Abreast w ds best best')
    (hwins : (ds.foldl (fun best d => better best d (count d)) best).1 = w) :
    Abreast w [] (ds.foldl (fun best d => better best d (count d)) best)
      (ds.foldl (fun best d => better best d (count' d)) best') := by
  induction ds generalizing best best' with
  | nil => exact h
  | cons d ds ih =>
    obtain ⟨hd, hrest⟩ := List.nodup_cons.mp hds
    rw [List.foldl_cons] at hwins
    rw [List.foldl_cons, List.foldl_cons]
    refine ih hrest ?_ hwins
    have hleads := fst_foldl_better count ds (better best d (count d))
    rw [hwins] at hleads
    rcases h with ⟨hmem, hne, hle⟩ | ⟨hmem, hbest, hbest', hle, hzero⟩
    · by_cases hdw : d = w
      · subst hdw
        have hless : best.2 < count d := by
          by_contra hnot
          rw [better, if_neg hnot] at hleads
          exact hleads.elim (fun h => hne h.symm) hd
        refine .inr ⟨hd, ?_⟩
        rw [better, if_pos hless, better, if_pos (by omega)]
        exact ⟨rfl, rfl, hw, fun h => absurd (h : count _ = 0) (by omega)⟩
      · have hmem' : w ∈ ds := (List.mem_cons.mp hmem).resolve_left fun h => hdw h.symm
        have hcount := hothers d hdw
        refine .inl ⟨hmem', ?_, ?_⟩
        · rw [better]
          split
          · exact hdw
          · exact hne
        · rw [snd_better, snd_better]
          omega
    · obtain ⟨hdw, hmem'⟩ := not_or.mp fun h => hmem (List.mem_cons.mpr h)
      have hcount := hothers d fun h => hdw h.symm
      have hnot : ¬best.2 < count d := by
        intro hless
        rw [better, if_pos hless] at hleads
        exact hleads.elim hdw hmem'
      rw [better, if_neg hnot, better, if_neg (by omega)]
      exact .inr ⟨hmem', hbest, hbest', hle, hzero⟩

theorem winner_eq {count count' : Dialect → Nat} (hstandard : count .standard = 0)
    (hstandard' : count' .standard = 0) (hw : count (winner count).1 ≤ count' (winner count).1)
    (hothers : ∀ d ≠ (winner count).1, count' d ≤ count d) :
    (winner count').1 = (winner count).1 ∧
      (0 < (winner count').2 ↔ 0 < (winner count).2) := by
  have hall : ∀ count : Dialect → Nat, count .standard = 0 → winner count =
      [Dialect.postgresql, .mysql, .sqlite, .plsql, .n1ql, .db2].foldl
        (fun best d => better best d (count d)) (.standard, 0) := by
    intro count h
    rw [winner, Dialect.all, List.foldl_cons, better, h]
    rfl
  have habreast : Abreast (winner count).1 [] (winner count) (winner count') := by
    rw [hall count' hstandard']
    have hstart : Abreast (winner count).1 [.postgresql, .mysql, .sqlite, .plsql, .n1ql, .db2]
        (.standard, 0) (.standard, 0) := by
      by_cases h : (winner count).1 = .standard
      · rw [h]
        exact .inr ⟨by decide, rfl, rfl, le_rfl, fun _ => rfl⟩
      · refine .inl ⟨?_, fun hs => h hs.symm, le_rfl⟩
        cases hwin : (winner count).1 <;> first | exact absurd hwin h | decide
    have := foldl_better hw hothers (by decide) hstart (by rw [← hall count hstandard])
    rwa [← hall count hstandard] at this
  rcases habreast with ⟨hmem, -⟩ | ⟨-, -, hfst, hle, hzero⟩
  · cases hmem
  · exact ⟨hfst, by omega⟩

theorem votes_standard (text : List Char) : votes text .standard = 0 := by
  rw [votes, List.length_eq_zero_iff, List.filter_eq_nil_iff]
  have hrules : ∀ rule ∈ rules, (rule.1 == Dialect.standard) = false := by
    simp only [rules, List.forall_mem_cons, List.not_mem_nil, false_implies, implies_true, and_true]
    decide
  intro rule hrule h
  rw [Bool.and_eq_true, hrules rule hrule] at h
  cases h.1

/-- The dialect that the patterns elect, and whether any of them occurs. -/
def elected (text : List Char) : Dialect × Bool :=
  ((winner (votes text)).1, decide (0 < (winner (votes text)).2))

theorem dialectOf_of_hint {text : String} {dialect : Dialect} (h : hinted? text = some dialect) :
    dialectOf text = (dialect, true) := by
  rw [dialectOf, h]

theorem dialectOf_of_no_hint {text : String} (h : hinted? text = none) :
    dialectOf text = elected text.toList := by
  rw [dialectOf, h]
  rfl

/-- A text that is spaced anew elects the same dialect if it keeps the marks of that dialect together, and
has none of another dialect that the source does not have. -/
theorem elected_eq {s t : List Char} {dialect : Dialect} (hs : (elected s).1 = dialect)
    (hkeeps : Mirrors (Keeps (clings dialect)) none s t)
    (hgains : ∀ d ≠ dialect, Mirrors (Keeps (clings d)) none t s) : elected t = elected s := by
  subst hs
  obtain ⟨hfst, hsnd⟩ := winner_eq (votes_standard s) (votes_standard t) (votes_le hkeeps)
    fun d hd => votes_le (hgains d hd)
  simp only [elected, hfst, hsnd]

end SqlFormat.Detect

import Mathlib
import SqlFormat.Proofs.Token.Respell

/-!
# Tokens that correspond

Two token sequences correspond if they have the same tokens up to what formatting may change: the
case and the gaps of keywords and the white space in comments. A literal that is left open at the end
may also lose white space. Corresponding sequences are equivalent.

Results: `Relexed.corresponds` (what is read back corresponds to what was written),
`Relexed.equivalent` (also with blanks after it, it is equivalent to what was written).
-/

namespace SqlFormat

open Text Lexer

/-- The second token says the same as the first. -/
structure Token.Corresponds (a b : Token) : Prop where
  kind : b.kind = a.kind
  key : b.key = a.key
  /-- Keywords, the words that open and close blocks included, differ in case and in gaps only. -/
  keyword : a.isKeyword = true → phraseKey b.text = phraseKey a.text
  /-- Comments differ in white space only. -/
  comment : a.kind.isComment = true →
    b.text.toList.filter (!isWhite ·) = a.text.toList.filter (!isWhite ·)
  text : a.isKeyword = false → a.kind.isComment = false → b.text = a.text

/-- The first token is a literal that nothing closes, and the second one is it without some of the
white space at its end. -/
structure Token.LosesWhite (lexicon : Lexicon) (a b : Token) : Prop where
  kind : b.kind = a.kind
  literal : a.kind = .string ∨ a.kind = .namedPlaceholder
  isOpen : Lexer.Open lexicon a.text.toList
  text : ∃ w, AllWhite w ∧ a.text.toList = b.text.toList ++ w

/-- The tokens correspond one to one, in order, an open literal at the end apart. -/
inductive Correspond (lexicon : Lexicon) : List Token → List Token → Prop
  | nil : Correspond lexicon [] []
  | cons {a b : Token} {as bs : List Token} (h : a.Corresponds b)
      (rest : Correspond lexicon as bs) : Correspond lexicon (a :: as) (b :: bs)
  | last {a b : Token} (h : a.LosesWhite lexicon b) : Correspond lexicon [a] [b]

/-! ## One token -/

theorem Text.AllWhite.filter_eq_nil {w : List Char} (hw : AllWhite w) :
    w.filter (!isWhite ·) = [] := by
  rw [List.filter_eq_nil_iff]
  intro c hc
  simp [hw c hc]

theorem Text.Reflow.filter_eq {t x : List Char} (h : Reflow t x) :
    x.filter (!isWhite ·) = t.filter (!isWhite ·) := by
  induction h with
  | nil => rfl
  | char hc _ ih =>
    rw [List.filter_cons_of_pos (by simp [hc]), List.filter_cons_of_pos (by simp [hc]), ih]
  | gap _ hg _ hg' _ ih =>
    rw [List.filter_append, List.filter_append, hg.filter_eq_nil, hg'.filter_eq_nil, ih]
  | stop _ hg hg' => rw [hg.filter_eq_nil, hg'.filter_eq_nil]

variable {dialect : Dialect} {case : KeywordCase} {token : Token} {x : List Char} {last : Bool}

/-- The white space that a trimmed text has lost. -/
theorem Written.exists_white (h : Written case last token x) (hlit : isLiteral token.kind = true) :
    ∃ w, AllWhite w ∧ token.text.toList = x ++ w := by
  obtain ⟨w, ht, hw⟩ := dropWhileEnd_spec isWhite token.text.toList
  have hkind : ∀ kind, isLiteral kind = true → kind.isReserved = false ∧ kind ≠ .openParen ∧
      kind ≠ .closeParen ∧ kind ≠ .blockComment := by
    intro kind
    cases kind <;> decide
  obtain ⟨hr, ho, hc, hb⟩ := hkind _ hlit
  cases h with
  | lineComment => exact ⟨w, hw, ht⟩
  | blockComment h => exact absurd h hb
  | keyword h => simp [Token.isKeyword, hr, ho, hc] at h
  | same => exact ⟨[], by simp [AllWhite], by simp⟩
  | trimmed => exact ⟨w, hw, ht⟩

/-- A token that is read back corresponds to what was written. -/
theorem Written.corresponds (h : Written case last token x) (regular : token.Regular dialect)
    (same : isLiteral token.kind = true → x = token.text.toList) (pos : Nat) :
    token.Corresponds ⟨token.kind, String.ofList x, pos, token.key⟩ where
  kind := rfl
  key := rfl
  keyword hk := by
    have hx := respaced_keyword regular.toSound hk case
    rw [← h.eq_keyword hk] at hx
    have := hx.phraseKey_eq
    rw [String.ofList_toList] at this
    exact this.symm
  comment hc := by
    simp only [String.toList_ofList]
    cases hk : token.kind with
    | lineComment =>
      rw [h.eq_lineComment hk]
      obtain ⟨w, ht, hw⟩ := dropWhileEnd_spec isWhite token.text.toList
      have hnil : w.filter (!isWhite ·) = [] := AllWhite.filter_eq_nil hw
      conv_rhs => rw [ht, List.filter_append, hnil, List.append_nil]
    | blockComment => exact (h.reflow hk).filter_eq
    | _ => rw [hk] at hc; cases hc
  text hk hc := by
    have hx : x = token.text.toList := by
      by_cases hlit : isLiteral token.kind = true
      · exact same hlit
      · refine h.eq_plain hk hc ?_
        simpa [isLiteral] using hlit
    rw [hx, String.ofList_toList]

/-! ## Sequences -/

theorem filter_blankTokens (gap : List Char) (pos : Nat) (ts : List Token) :
    (blankTokens gap pos ++ ts).filter (·.kind != .whitespace) =
      ts.filter (·.kind != .whitespace) := by
  rw [List.filter_append, blankTokens]
  split <;> rfl

/-- What is read back corresponds to what was written. -/
theorem Lexer.Relexed.corresponds {before : Option Token} {ps : List Piece} {ts : List Token}
    (h : Relexed dialect.lexicon ps [] ts) (hsp : Spelt dialect case before ps []) :
    Correspond dialect.lexicon (ps.map (·.token)) (ts.filter (·.kind != .whitespace)) := by
  generalize htail : ([] : List Char) = tail at h hsp
  induction h generalizing before with
  | nil tail pos =>
    subst htail
    exact .nil
  | @cons p ps tail ts pos pos' same rest ih =>
    cases hsp with
    | cons regular kind joins written hrest =>
      rw [filter_blankTokens, List.filter_cons_of_pos (by simpa using kind)]
      exact .cons (written.corresponds regular same pos') (ih htail hrest)
  | @last p tail pos pos' key kind isOpen hkey =>
    subst htail
    cases hsp with
    | cons regular kind' joins written hrest =>
      rw [filter_blankTokens, List.filter_cons_of_pos (by simpa using kind'), List.append_nil,
        List.filter_nil]
      by_cases hb : p.token.kind = .blockComment
      · rw [hkey hb]
        refine .cons (written.corresponds regular (fun hlit => ?_) pos') .nil
        rw [hb] at hlit
        cases hlit
      · have hlit : isLiteral p.token.kind = true := by
          simpa [canBeOpen, isLiteral, hb] using kind
        obtain ⟨w, hw, ht⟩ := written.exists_white hlit
        refine .last ⟨rfl, by simpa [isLiteral] using hlit, isOpen hb, w, hw, ?_⟩
        rw [String.toList_ofList]
        exact ht

/-! ## Equivalence -/

theorem isWhite_toLower_keyword {c : Char} (h : isKeywordChar c = true) :
    isWhite c.toLower = false := by
  refine ascii_induction (p := fun c => isKeywordChar c = true → isWhite c.toLower = false) ?_
    (isKeywordChar_lt h) h
  decide

theorem toLower_blank {c : Char} (h : isBlank c = true) : c.toLower = c := by
  simp only [isBlank, Bool.or_eq_true, beq_iff_eq] at h
  rcases h with (((h | h) | h) | h) | h <;> subst h <;> decide

/-- The words of a phrase between white space, in lower case. -/
theorem Lexer.Phrased.whiteWords_eq {t : List Char} {ws : List (List Char)} (h : Phrased t ws) :
    Equivalence.whiteWordsFrom [] (t.map Char.toLower) = ws.map (List.map Char.toLower) := by
  have hword : ∀ {w : List Char}, IsKeywordWord w → ∀ c ∈ w.map Char.toLower, isWhite c = false := by
    intro w hw c hc
    obtain ⟨d, hd, rfl⟩ := List.mem_map.mp hc
    exact isWhite_toLower_keyword (hw.chars d hd)
  have hends : ∀ {w : List Char}, IsKeywordWord w →
      Equivalence.whiteWordsFrom (w.map Char.toLower) [] = [w.map Char.toLower] := by
    intro w hw
    rw [Equivalence.whiteWordsFrom, if_neg (by simpa using hw.ne_nil)]
  induction h with
  | @word w hw =>
    have := whiteWordsFrom_append [] (hword hw) []
    rw [List.append_nil, List.nil_append] at this
    rw [this, hends hw, List.map_singleton]
  | @more w g t ws hw hg _ ih =>
    have hlower : g.map Char.toLower = g.map id :=
      List.map_congr_left fun c hc => toLower_blank (hg.2 c hc)
    rw [List.map_id] at hlower
    rw [List.map_append, List.map_append, whiteWordsFrom_append [] (hword hw), List.nil_append,
      hlower, whiteWordsFrom_gap _ hg.1 (fun c hc => isBlank_imp_isWhite (hg.2 c hc)), ih, hends hw,
      List.map_cons, List.singleton_append]

theorem Lexer.Phrased.ascii {t : List Char} {ws : List (List Char)} (h : Phrased t ws) :
    ∀ c ∈ t, c.toNat < 128 := by
  have hblank : ∀ {c : Char}, isBlank c = true → c.toNat < 128 := by
    intro c h
    simp only [isBlank, Bool.or_eq_true, beq_iff_eq] at h
    rcases h with (((h | h) | h) | h) | h <;> subst h <;> decide
  induction h with
  | word hw => exact fun c hc => isKeywordChar_lt (hw.chars c hc)
  | more hw hg _ ih =>
    intro c hc
    rcases List.mem_append.mp hc with hc | hc
    · exact isKeywordChar_lt (hw.chars c hc)
    · rcases List.mem_append.mp hc with hc | hc
      · exact hblank (hg.2 c hc)
      · exact ih c hc

/-- Two writings of a phrase have the same words between white space. -/
theorem Lexer.Respaced.whiteWords_lower {t x : List Char} (h : Respaced t x) :
    Equivalence.whiteWordsFrom [] (lowerFrom [] t) =
      Equivalence.whiteWordsFrom [] (lowerFrom [] x) := by
  obtain ⟨ws, ws', ht, hx, heq⟩ := h.phrased
  rw [lowerFrom_ascii [] ht.ascii, lowerFrom_ascii [] hx.ascii, ht.whiteWords_eq, hx.whiteWords_eq,
    heq]

/-- The writing of a token has the words of the token, white space after it apart. -/
theorem Written.whiteWords_lower (h : Written case last token x) (regular : token.Regular dialect) :
    Equivalence.whiteWordsFrom [] (lowerFrom [] token.text.toList) =
      Equivalence.whiteWordsFrom [] (lowerFrom [] x) := by
  obtain ⟨w, ht, hw⟩ := dropWhileEnd_spec isWhite token.text.toList
  have htrim := whiteWords_lower_append (dropWhileEnd isWhite token.text.toList) hw
  rw [← ht] at htrim
  cases h with
  | lineComment => exact htrim
  | blockComment _ hx => exact hx.whiteWords_lower
  | keyword hk => exact (respaced_keyword regular.toSound hk case).whiteWords_lower
  | same => rfl
  | trimmed => exact htrim

theorem Written.key_eq (h : Written case last token x) (regular : token.Regular dialect)
    {tail : List Char} (htail : AllWhite tail) (pos : Nat) (key : Option PlaceholderKey) :
    Equivalence.key token =
      Equivalence.key ⟨token.kind, String.ofList (x ++ tail), pos, key⟩ := by
  simp only [Equivalence.key, lower, String.toList_ofList]
  rw [h.whiteWords_lower regular, whiteWords_lower_append x htail]

theorem firstMismatch?_cons {i : Nat} {a b : Token} {as bs : List Token}
    (hkey : Equivalence.key a = Equivalence.key b) (hk : a.kind = b.kind) :
    Equivalence.firstMismatch? i (a :: as) (b :: bs) =
      Equivalence.firstMismatch? (i + 1) as bs := by
  rw [Equivalence.firstMismatch?, if_neg (not_not.mpr hk), if_neg (not_not.mpr hkey)]

/-- What is read back, also with blanks after it, is equivalent to what was written. -/
theorem Lexer.Relexed.equivalent {before : Option Token} {ps : List Piece} {tail : List Char}
    {ts : List Token} (h : Relexed dialect.lexicon ps tail ts)
    (hsp : Spelt dialect case before ps tail) (i : Nat) :
    ps.length = (ts.filter (·.kind != .whitespace)).length ∧
      Equivalence.firstMismatch? i (ps.map (·.token)) (ts.filter (·.kind != .whitespace)) =
        none := by
  induction h generalizing before i with
  | nil tail pos =>
    rw [← List.append_nil (blankTokens tail pos), filter_blankTokens]
    exact ⟨rfl, rfl⟩
  | @cons p ps tail ts pos pos' same rest ih =>
    cases hsp with
    | cons regular kind joins written hrest =>
      obtain ⟨hlen, hnone⟩ := ih hrest (i + 1)
      have hnil : AllWhite [] := by simp [AllWhite]
      have hkey := written.key_eq regular hnil pos' p.token.key
      rw [List.append_nil] at hkey
      rw [filter_blankTokens, List.filter_cons_of_pos (by simpa using kind), List.length_cons,
        List.length_cons, hlen, List.map_cons, firstMismatch?_cons hkey rfl]
      exact ⟨rfl, hnone⟩
  | @last p tail pos pos' key kind isOpen hkey =>
    cases hsp with
    | cons regular kind' joins written hrest =>
      have hkey := written.key_eq regular hrest.allWhite_tail pos' key
      rw [filter_blankTokens, List.filter_cons_of_pos (by simpa using kind'), List.filter_nil,
        List.map_singleton, firstMismatch?_cons hkey rfl]
      exact ⟨rfl, rfl⟩

end SqlFormat

import Mathlib
import SqlFormat.Proofs.Token.Spell

/-!
# Tokens that do not run together

A number or an operator is written directly before the next token where spacing allows it and the two
do not run together. The test for that looks at numbers, comments and operators only, although
placeholders and variables are read before operators. It is enough all the same: the operators that
anything may touch start neither, and the others touch only a closing bracket or an operator that
belongs to what is before it, which end whatever they would start.

Results: `Reads.touching` (one cut), `tokenize_touching`.
-/

namespace SqlFormat.Lexer

open Text

variable {dialect : Dialect} {memory : Memory} {text t r r' : List Char} {found : Lexeme}

/-! ## How numbers and operators were read -/

/-- No rule reads the text, so that an operator is left. -/
structure LeavesOperator (lexicon : Lexicon) (memory : Memory) (text : List Char) : Prop where
  bare : Bare lexicon text
  word : word? lexicon memory text = none
  indexed : indexedPlaceholder? lexicon memory text = none
  named : namedPlaceholder? lexicon text = none
  session : sessionVariable? lexicon text = none
  number : number? memory text = none
  bracket : bracket? lexicon text = none

/-- Numbers are read by their rule, and operators by none. -/
theorem Reads.number_or_operator (h : Reads dialect.lexicon memory text found)
    (hkind : found.kind = .number ∨ found.kind = .operator) :
    number? memory text = some found ∨
      LeavesOperator dialect.lexicon memory text ∧ found = Lexer.operator text := by
  cases h with
  | blanks h => obtain ⟨_, rfl⟩ := blanks?_eq_some h; simp [Lexeme.plain] at hkind
  | comment _ h =>
    rcases comment?_eq_some h with ⟨_, rfl⟩ | ⟨_, _, rfl⟩ <;> simp [Lexeme.plain] at hkind
  | dollar _ _ h => obtain ⟨_, n, _, rfl⟩ := dollarString?_eq_some h; simp [Lexeme.plain] at hkind
  | quoted _ _ _ h =>
    obtain ⟨_, _, _, _, _, rfl⟩ := quotedString?_eq_some h
    simp [Lexeme.plain] at hkind
  | prefixed _ _ _ _ h =>
    obtain ⟨_, _, _, _, _, rfl⟩ := prefixedString?_eq_some h
    simp [Lexeme.plain] at hkind
  | word _ h =>
    rcases (word?_eq_some h).2 with ⟨_, rfl⟩ | ⟨_, _, kind, key, length, hw, rfl⟩
    · simp [Lexeme.plain] at hkind
    · -- a keyword keeps its kind or becomes a plain one
      have hkeyword := refine_kind memory key (text.drop length)
        (classify_kind (keyword?_eq_some hw).2)
      simp only [Lexeme.plain] at hkind
      rcases hkind with hkind | hkind <;> rw [hkind] at hkeyword <;>
        simp [TokenKind.isReserved] at hkeyword
  | indexed _ _ h =>
    obtain ⟨_, _, _, _, ⟨_, rfl⟩ | ⟨_, _, rfl⟩⟩ := indexedPlaceholder?_eq_some h <;>
      simp at hkind
  | named _ _ _ h =>
    obtain ⟨_, _, _, _, _, _, _, rfl⟩ := namedPlaceholder?_eq_some h
    simp at hkind
  | sessionVariable _ _ _ _ h =>
    obtain ⟨_, _, _, _, _, _, _, rfl⟩ := sessionVariable?_eq_some h
    simp [Lexeme.plain] at hkind
  | number _ _ _ _ _ h => exact .inl h
  | bracket _ _ _ _ _ _ h =>
    obtain ⟨_, _, _, ⟨_, rfl⟩ | ⟨_, rfl⟩ | ⟨_, _, rfl⟩ | ⟨_, _, rfl⟩⟩ := bracket?_eq_some h <;>
      simp [Lexeme.plain] at hkind
  | operator bare hw hi hn hv hm hp => exact .inr ⟨⟨bare, hw, hi, hn, hv, hm, hp⟩, rfl⟩

/-- No digit stands in an operator. -/
theorem not_isDigit_of_operator {c d : Char} {cs : List Char}
    (h : max 1 (Scan.compoundOperator (c :: d :: cs ++ r)) = (c :: d :: cs).length) :
    d.isDigit = false := by
  have hall : ∀ {l : List Char}, (Scan.isDouble l = true ∨ Scan.isTriple l = true) →
      (l.all (!·.isDigit)) = true := by
    rintro l (hl | hl)
    · exact Scan.isDouble_imp (p := fun l => (l.all (!·.isDigit)) = true) (by decide) hl
    · exact Scan.isTriple_imp (p := fun l => (l.all (!·.isDigit)) = true) (by decide) hl
  obtain ⟨a, hone⟩ | ⟨hdouble, -⟩ | ⟨htriple, -⟩ := Scan.operator_cases h
  · simp at hone
  · simpa using List.all_eq_true.mp (hall (.inl hdouble)) d (by simp)
  · simpa using List.all_eq_true.mp (hall (.inr htriple)) d (by simp)

namespace LeavesOperator

/-- At the start of a text an operator starts no number either. -/
theorem number?_start (h : LeavesOperator dialect.lexicon memory (t ++ r)) (hne : t ≠ [])
    (hlen : max 1 (Scan.compoundOperator (t ++ r)) = t.length)
    (hdot : t = ['.'] → r'.head?.any Char.isDigit = false) :
    number? .start (t ++ r') = none := by
  obtain ⟨c, cs, rfl⟩ := List.exists_cons_of_ne_nil hne
  have hdigit : c.isDigit = false := by
    rw [Bool.eq_false_iff]
    intro hc
    have hnone := h.number
    rw [number?, if_pos (by simp [hc])] at hnone
    cases hnone
  have hfraction : Memory.start.startsFraction (c :: cs ++ r') = false := by
    rw [Bool.eq_false_iff]
    intro hf
    obtain ⟨d, ds, htext, hd⟩ := startsFraction_eq_true hf
    obtain ⟨rfl, htail⟩ := List.cons.inj htext
    cases cs with
    | nil =>
      have hnone := hdot rfl
      obtain rfl : r' = d :: ds := htail
      simp [hd] at hnone
    | cons e cs =>
      obtain ⟨rfl, -⟩ := List.cons.inj htail
      rw [not_isDigit_of_operator hlen] at hd
      cases hd
  rw [number?, hfraction, Bool.or_false, if_neg (by simp [hdigit])]

/-- An operator that stops before another text is read again at the start of a text. -/
theorem reads_start (h : LeavesOperator dialect.lexicon memory (t ++ r)) (hne : t ≠ [])
    (hlen : max 1 (Scan.compoundOperator (t ++ r)) = t.length) (hstops : OperatorStops dialect t r') :
    Reads dialect.lexicon .start (t ++ r') (.plain .operator t.length) :=
  reads_operator h.bare h.word h.indexed h.named h.session h.bracket
    (h.number?_start hne hlen hstops.dot) hne hstops.comment hstops.length hstops.sigil

end LeavesOperator

/-- A number that stops before another text is read again at the start of a text. -/
theorem number?_reads_start (h : number? memory (t ++ r) = some (.plain .number t.length))
    (hne : t ≠ []) (hlen : Scan.number (t ++ r') = t.length) :
    Reads dialect.lexicon .start (t ++ r') (.plain .number t.length) := by
  obtain ⟨hstart, hfound⟩ := number?_eq_some h
  refine reads_number ?_ hlen
  rcases hstart with hdigit | hf
  · obtain ⟨c, cs, rfl⟩ := List.exists_cons_of_ne_nil hne
    exact .inl hdigit
  · obtain ⟨d, cs, rfl, hd⟩ := startsFraction_number hf hne (congrArg Lexeme.length hfound).symm
    exact .inr (by simp [Memory.startsFraction, Memory.start, hd])

/-! ## Tokens that touch -/

/-- An operator is as long before a text as it was, if it is no longer. -/
theorem operator_length_of_compound
    (hlen : max 1 (Scan.compoundOperator (t ++ r)) = t.length)
    (hcompound : Scan.compoundOperator (t ++ r') = 0 ∨
      Scan.compoundOperator (t ++ r') = t.length) :
    max 1 (Scan.compoundOperator (t ++ r')) = t.length := by
  obtain hnone | hsome := hcompound
  · obtain ⟨a, rfl⟩ | ⟨hdouble, htwo⟩ | ⟨htriple, hthree⟩ := Scan.operator_cases hlen
    · rw [hnone]
      rfl
    · rw [Scan.compoundOperator_eq, List.take_left' htwo, hdouble] at hnone
      split at hnone <;> cases hnone
    · rw [Scan.compoundOperator_eq, List.take_left' hthree, htriple] at hnone
      cases hnone
  · rw [hsome]
    omega

/-- An operator stops before a token that may touch it and does not run together with it. -/
theorem operatorStops_of_tight {prev next : Token} (hkind : prev.kind = .operator)
    (hlen : max 1 (Scan.compoundOperator (prev.text.toList ++ r)) = prev.text.toList.length)
    (htight : Tight dialect prev next) (hmerge : wouldMerge dialect.lexicon prev next = false) :
    OperatorStops dialect prev.text.toList next.text.toList := by
  obtain ⟨hline, hblock, hcompound, hdot⟩ := wouldMerge_operator hkind hmerge
  refine ⟨comment?_eq_none.mpr ⟨hline, hblock⟩, operator_length_of_compound hlen hcompound, ?_,
    fun h => hdot (String.toList_inj.mp h)⟩
  by_cases hclosed : (prev.text ≠ "+" ∧ prev.text ≠ "-") ∧ (dialect.spacing prev.text).after = true
  · obtain ⟨c, cs, htext, hedge, -⟩ :=
      closedEdge_of_tight dialect (htight.closed hkind hclosed.1 hclosed.2)
    refine .inr (.inr fun d hd => ?_)
    rw [htext] at hd
    exact Option.some.inj hd ▸ hedge
  · exact (sigil_tight (mem_tightOperators hclosed)).imp_right .inl

/-- A token of a text was read at the head of what was left of it. -/
theorem exists_cut {source : String} {prev : Token} (h : prev ∈ tokenize dialect.lexicon source) :
    ∃ memory t r found, t ≠ [] ∧ Reads dialect.lexicon memory (t ++ r) found ∧
      found.length = t.length ∧ prev.text.toList = t ∧ found.kind = prev.kind := by
  refine forall_mem_of_cut dialect (p := fun prev => ∃ memory t r found, t ≠ [] ∧
    Reads dialect.lexicon memory (t ++ r) found ∧ found.length = t.length ∧ prev.text.toList = t ∧
      found.kind = prev.kind) (fun memory pos text found hne h => ?_) .start 0 source.toList prev h
  have hlength : found.length = (text.take found.length).length :=
    (List.length_take_of_le (h.length_le hne)).symm
  have hreads : Reads dialect.lexicon memory
      (text.take found.length ++ text.drop found.length) found := by rwa [List.take_append_drop]
  refine ⟨memory, text.take found.length, text.drop found.length, found, ?_, hreads, hlength, ?_, rfl⟩
  · exact List.ne_nil_of_length_pos (hlength ▸ h.length_pos)
  · rw [Lexeme.token_text, String.toList_ofList]

/-- The same for a cut: what it read is read again before the next token. -/
theorem Reads.touching (h : Reads dialect.lexicon memory (t ++ r) found) (hne : t ≠ [])
    (hlength : found.length = t.length) {prev next : Token} (htext : prev.text.toList = t)
    (hfound : found.kind = prev.kind)
    (hkind : prev.kind = .number ∨ prev.kind = .operator ∧ Tight dialect prev next)
    (hmerge : wouldMerge dialect.lexicon prev next = false) :
    Reads dialect.lexicon .start (t ++ next.text.toList) (.plain prev.kind t.length) := by
  have hrule := h.number_or_operator (hfound ▸ hkind.imp_right And.left)
  obtain hnumber | ⟨hoperator, htight⟩ := hkind
  · obtain hread | ⟨-, rfl⟩ := hrule
    · obtain ⟨-, rfl⟩ := number?_eq_some hread
      rw [show Scan.number (t ++ r) = t.length from hlength] at hread
      have hstops : Scan.number (t ++ next.text.toList) = t.length := by
        simpa [wouldMerge, hnumber, htext, ← String.length_toList] using hmerge
      rw [hnumber]
      exact number?_reads_start hread hne hstops
    · rw [hnumber] at hfound
      cases hfound
  · obtain hread | ⟨hleaves, rfl⟩ := hrule
    · obtain ⟨-, rfl⟩ := number?_eq_some hread
      rw [hoperator] at hfound
      cases hfound
    · subst htext
      rw [hoperator]
      exact hleaves.reads_start hne hlength (operatorStops_of_tight hoperator hlength htight hmerge)

/-- **Touching tokens**: a number or an operator of some text, written directly before a token that may
touch it and does not run together with it, is read back as it was. -/
theorem tokenize_touching {source : String} {prev next : Token}
    (hprev : prev ∈ tokenize dialect.lexicon source)
    (hkind : prev.kind = .number ∨ prev.kind = .operator ∧ Tight dialect prev next)
    (hmerge : wouldMerge dialect.lexicon prev next = false) :
    (tokenize dialect.lexicon (prev.text ++ next.text)).head? =
      some (.plain prev.kind prev.text 0) := by
  obtain ⟨memory, t, r, found, hne, h, hlength, htext, hfound⟩ := exists_cut hprev
  have hreads := h.touching hne hlength htext hfound hkind hmerge
  have hcut := tokenize_of_reads dialect hne hreads
  simp only [← htext, ← String.toList_append, String.ofList_toList] at hcut
  rw [hcut]
  rfl

/-- A sign before a placeholder, and a number before a range. -/
theorem tokenize_touching_sign :
    (tokenize Dialect.postgresql.lexicon ("-" ++ "$1")).head? = some (.plain .operator "-" 0) ∧
      (tokenize Dialect.plsql.lexicon ("1e5" ++ "..")).head? = some (.plain .number "1e5" 0) := by
  have hsign : .plain .operator "-" 2 ∈ tokenize Dialect.postgresql.lexicon "a - $1" := by
    decide +kernel
  have hrange : .plain .number "1e5" 0 ∈ tokenize Dialect.plsql.lexicon "1e5 .. b" := by
    decide +kernel
  have hfirst : wouldMerge Dialect.postgresql.lexicon (.plain .operator "-" 2)
      ⟨.indexedPlaceholder, "$1", 4, some (.index (some 0))⟩ = false := by decide +kernel
  have hsecond : wouldMerge Dialect.plsql.lexicon (.plain .number "1e5" 0)
      (.plain .operator ".." 4) = false := by decide +kernel
  have htight : Tight .postgresql (.plain .operator "-" 2)
      ⟨.indexedPlaceholder, "$1", 4, some (.index (some 0))⟩ := .sign (.inr rfl)
  have hoperator := tokenize_touching hsign (.inr ⟨rfl, htight⟩) hfirst
  have hnumber := tokenize_touching hrange (.inl rfl) hsecond
  exact ⟨hoperator, hnumber⟩

end SqlFormat.Lexer

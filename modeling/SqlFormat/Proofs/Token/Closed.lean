import SqlFormat.Proofs.Token.Spell

/-!
# Comments that are closed

White space is read as white space. A block comment that something follows has been closed, so that it
ends with its closing delimiter.

Results: `allWhite_of_mem`, `isChain_closes`.
-/

namespace SqlFormat

open Text Lexer

namespace Lexer

variable {dialect : Dialect} {memory : Memory} {text : List Char} {found : Lexeme}

theorem allWhite_of_mem (dialect : Dialect) (memory : Memory) (pos : Nat) (text : List Char) :
    ∀ t ∈ tokensFrom dialect.lexicon memory pos text, t.kind = .whitespace →
      AllWhite t.text.toList := by
  refine forall_mem_of_cut dialect (fun memory pos text found _ h hk => ?_) memory pos text
  rw [Lexeme.token_text, String.toList_ofList, h.whitespace hk]
  intro c hc
  rw [Lexeme.plain, Scan.blanks, ← List.prefix_iff_eq_take.mp (List.takeWhile_prefix _)] at hc
  exact isBlank_imp_isWhite (List.mem_takeWhile_imp hc)

/-- A block comment is what its opening delimiter starts. -/
theorem Reads.blockComment (h : Reads dialect.lexicon memory text found)
    (hk : found.kind = .blockComment) :
    Scan.startsBlockComment text = true ∧
      found = .plain .blockComment (Scan.blockComment text) := by
  cases h with
  | blanks h => obtain ⟨_, rfl⟩ := blanks?_eq_some h; cases hk
  | comment _ h =>
    rcases comment?_eq_some h with ⟨_, rfl⟩ | ⟨_, hb, rfl⟩
    · cases hk
    · exact ⟨hb, rfl⟩
  | dollar _ _ h => obtain ⟨_, n, _, rfl⟩ := dollarString?_eq_some h; cases hk
  | quoted _ _ _ h => obtain ⟨c, cs, style, _, _, rfl⟩ := quotedString?_eq_some h; cases hk
  | prefixed _ _ _ _ h => obtain ⟨_, _, _, _, _, rfl⟩ := prefixedString?_eq_some h; cases hk
  | word _ h =>
    rcases (word?_eq_some h).2 with ⟨_, rfl⟩ | ⟨_, _, kind, key, length, hw, rfl⟩
    · cases hk
    · have hkind := refine_kind memory key (text.drop length)
        (classify_kind (keyword?_eq_some hw).2)
      simp only [Lexeme.plain] at hk
      rw [hk] at hkind
      simp [TokenKind.isReserved] at hkind
  | indexed _ _ h =>
    obtain ⟨c, cs, _, _, ⟨_, rfl⟩ | ⟨_, _, rfl⟩⟩ := indexedPlaceholder?_eq_some h <;> cases hk
  | named _ _ _ h => obtain ⟨_, _, _, _, _, _, _, rfl⟩ := namedPlaceholder?_eq_some h; cases hk
  | sessionVariable _ _ _ _ h =>
    obtain ⟨_, _, _, _, _, _, _, rfl⟩ := sessionVariable?_eq_some h
    cases hk
  | number _ _ _ _ _ h => obtain ⟨_, rfl⟩ := number?_eq_some h; cases hk
  | bracket _ _ _ _ _ _ h =>
    obtain ⟨c, cs, _, ⟨_, rfl⟩ | ⟨_, rfl⟩ | ⟨_, _, rfl⟩ | ⟨_, _, rfl⟩⟩ := bracket?_eq_some h <;>
      cases hk
  | operator => cases hk

/-- A block comment that something follows ends with its closing delimiter. -/
def Closes (first _second : Token) : Prop :=
  first.kind = .blockComment → ∃ body, first.text.toList = body ++ ['*', '/']

theorem Reads.closes (h : Reads dialect.lexicon memory text found)
    (hk : found.kind = .blockComment) (hrest : text.drop found.length ≠ []) :
    ∃ body, text.take found.length = body ++ ['*', '/'] := by
  obtain ⟨hstart, rfl⟩ := h.blockComment hk
  obtain ⟨b, rfl⟩ := List.isPrefixOf_iff_prefix.mp hstart
  have hlength : (Lexeme.plain .blockComment (Scan.blockComment (['/', '*'] ++ b))).length =
      ['/', '*'].length + Scan.through ['*', '/'] b := rfl
  rw [hlength, List.drop_length_add_append] at hrest
  rw [hlength, List.take_length_add_append]
  have hthrough : Scan.through ['*', '/'] (b.take (Scan.through ['*', '/'] b) ++
      b.drop (Scan.through ['*', '/'] b)) = (b.take (Scan.through ['*', '/'] b)).length := by
    rw [List.take_append_drop, List.length_take, min_eq_left (Scan.through_le _ b)]
  rcases Scan.through_closed (by simp) hthrough with ⟨hnil, -⟩ | ⟨⟨body, hbody⟩, -⟩
  · exact absurd hnil hrest
  · exact ⟨['/', '*'] ++ body, by rw [List.append_assoc, hbody]⟩

theorem isChain_closes (dialect : Dialect) (memory : Memory) (pos : Nat) (text : List Char) :
    (tokensFrom dialect.lexicon memory pos text).IsChain Closes := by
  induction memory, pos, text using cut_induction dialect with
  | nil memory pos => simp [tokensFrom_nil]
  | cut memory pos text found hne h ih =>
    rw [tokensFrom_cons dialect memory pos hne h]
    refine List.isChain_cons.mpr ⟨fun next hnext hk => ?_, ih⟩
    rw [Lexeme.token_text, String.toList_ofList]
    refine h.closes hk fun hnil => ?_
    rw [hnil, tokensFrom_nil] at hnext
    cases hnext

end Lexer

end SqlFormat

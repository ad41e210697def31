import Mathlib
import SqlFormat.Proofs.Groups.Stable
import SqlFormat.Proofs.Layout.Reread

/-!
# The groups of a text that was laid out

The tokens that are read back from a text have the brackets of its source, and break lines where they do.
They are also as wide as those, with two exceptions. The last token may have been trimmed, but then it
stands in no group. A word that closes a block counts with all the blanks in it, and is written with one
between two words.

Results: `Written.outline`, `Written.wideAs` (one token), `fitsAlike_ofTokens`.
-/

namespace SqlFormat

open Text Lexer

variable {dialect : Dialect} {case : KeywordCase} {t u : Token} {x : List Char}

/-! ## Tokens and what is written for them -/

theorem Token.SameOutline.of_text (hkind : t.kind = u.kind) (htext : t.text = u.text) :
    t.SameOutline u where
  isBracket := by rw [Token.isBracket, Token.isBracket, hkind, htext]
  text _ := htext
  breaksLine := by
    simp only [Token.breaksLine, Token.isBracket, Token.isOperator, hkind, htext]

/-- A comment or a literal is known by its kind. -/
theorem Token.SameOutline.of_kind (hkind : t.kind = u.kind) (hopen : t.kind = .lineComment ∨
    canBeOpen t.kind = true) : t.SameOutline u := by
  have hbracket : t.isBracket = false ∧ u.isBracket = false := by
    simp only [canBeOpen, Bool.or_eq_true, beq_iff_eq] at hopen
    simp only [Token.isBracket, ← hkind]
    rcases hopen with h | (h | h) | h <;> simp [h]
  have hbreaks : t.breaksLine = u.breaksLine := by
    simp only [canBeOpen, Bool.or_eq_true, beq_iff_eq] at hopen
    simp only [Token.breaksLine, Token.isOperator, ← hkind]
    rcases hopen with h | (h | h) | h <;> rw [h] <;> rfl
  exact ⟨by rw [hbracket.1, hbracket.2], fun h => by simp [hbracket.1] at h, hbreaks⟩

/-- A token that is not the last of a text is written as if it were. -/
theorem Written.last (h : Written case false t x) : Written case true t x := by
  cases h with
  | lineComment hk => exact .lineComment hk
  | blockComment hk hx => exact .blockComment hk hx
  | keyword hk => exact .keyword hk
  | same hc hk => exact .same hc hk
  | trimmed habs => cases habs

theorem significant_of_isKeyword (h : t.isKeyword = true) : t.kind.isSignificant = true := by
  simp only [Token.isKeyword, Bool.or_eq_true, Bool.and_eq_true, beq_iff_eq] at h
  rcases h with h | ⟨h | h, -⟩
  · cases hk : t.kind <;> rw [hk] at h <;> first | rfl | cases h
  · rw [h]; rfl
  · rw [h]; rfl

theorem resembles_keyword (hr : t.Regular dialect) (hk : t.isKeyword = true) (hkind : u.kind = t.kind)
    (htext : u.text = case.apply (normalizePhrase t.text)) : Resembles t u := by
  have hwritten : Written case false t (case.apply (normalizePhrase t.text)).toList := .keyword hk
  have := Written.resembles hr (significant_of_isKeyword hk) hwritten u.pos u.key
  rwa [String.ofList_toList, ← htext, ← hkind] at this

/-- A token has the outline of its writing. -/
theorem Written.outline (h : Written case true t x) (hr : t.Regular dialect)
    (hkind : u.kind = t.kind) (htext : u.text = String.ofList x) : t.SameOutline u := by
  cases h with
  | lineComment hk => exact .of_kind hkind.symm (.inl hk)
  | blockComment hk => exact .of_kind hkind.symm (.inr (by rw [hk]; rfl))
  | trimmed _ hk => exact .of_kind hkind.symm (.inr (by rcases hk with hk | hk <;> rw [hk] <;> rfl))
  | same =>
    rw [String.ofList_toList] at htext
    exact .of_text hkind.symm htext.symm
  | keyword hk =>
    rw [String.ofList_toList] at htext
    have hsame := resembles_keyword hr hk hkind htext
    refine ⟨hsame.isBracket, fun hbracket => ?_, ?_⟩
    · rw [(isKeyword_of_isBracket hbracket).1] at hk
      cases hk
    · rw [Token.breaksLine, Token.breaksLine, hsame.kind, hsame.isOperator, hsame.isBracket]

/-- A word is written with as many characters as it has with one blank between two words. -/
theorem length_apply_keyword (hs : t.Sound dialect) (hk : t.isKeyword = true) (case : KeywordCase) :
    (case.apply (normalizePhrase t.text)).length = (normalizePhrase t.text).length := by
  obtain ⟨ws, hws, htext⟩ := exists_keywordText hs hk case
  have hphrase := toList_normalizePhrase hws
  rw [String.ofList_toList] at hphrase
  rw [← String.length_toList, ← String.length_toList, htext, hphrase, List.length_map]

/-- Before the end of a text, a token is as wide as its writing, unless it breaks the line. -/
theorem Written.wideAs (h : Written case false t x) (hr : t.Regular dialect)
    (hopens : t.Opens dialect.lexicon) (hsound : u.Sound dialect) (hopens' : u.Opens dialect.lexicon)
    (hkind : u.kind = t.kind) (htext : u.text = String.ofList x)
    (hcloser : t.kind = .closeParen → (normalizePhrase t.text).length = t.text.length) :
    Groups.WideAs t u := by
  intro hcalm
  cases h with
  | lineComment hk => simp [Token.breaksLine, hk, TokenKind.breaksInlineGroup] at hcalm
  | blockComment hk => simp [Token.breaksLine, hk, TokenKind.breaksInlineGroup] at hcalm
  | trimmed habs => cases habs
  | same =>
    rw [String.ofList_toList] at htext
    simp only [Token.width, Token.keyText, hkind, htext]
  | keyword hk =>
    rw [String.ofList_toList] at htext
    have hsame := resembles_keyword hr hk hkind htext
    have hk' : u.isKeyword = true := by
      rw [Token.isKeyword, hkind, ← hsame.isBracket]
      exact hk
    simp only [Token.width, hkind]
    split
    · rfl
    · split
      · rw [hsame.keyText]
      · next hreserved =>
        have hkinds : t.kind = .openParen ∨ t.kind = .closeParen := by
          simp only [Token.isKeyword, Bool.or_eq_true, Bool.and_eq_true, beq_iff_eq] at hk
          exact (hk.resolve_left hreserved).1
        rcases hkinds with hopen | hclose
        · rw [hr.length_opener hopens hopen hk, hsound.length_opener hopens' (hkind.trans hopen) hk',
            hsame.keyText]
        · rw [htext, length_apply_keyword hr.toSound hk, hcloser hclose]

/-! ## Groups -/

namespace Layout

variable {ctx : Context} {before : Option Token} {qs : List Piece} {items others : List Item}
  {tokens tokens' : List Token}

/-- The group of one item fits on a line if that of the other does. -/
def Item.FitsAlike (ctx : Context) (item other : Item) : Prop :=
  ∀ s : State, Groups.fitsIn item.inlineWidth (s.available ctx) =
    Groups.fitsIn other.inlineWidth (s.available ctx)

/-- The text of the last item does not matter. -/
theorem fitsAlike_withText {x : Item}
    (h : List.Forall₂ (Item.FitsAlike ctx) items (others ++ [x])) (text : String) :
    List.Forall₂ (Item.FitsAlike ctx) items (others ++ [x.withText text]) := by
  induction others generalizing items with
  | nil =>
    cases h with
    | cons hx rest => exact .cons hx rest
  | cons other others ih =>
    cases h with
    | cons hother rest => exact .cons hother (ih rest)

theorem Item.Reread.outlines (h : Item.Reread before (trimLast qs) others)
    (hgood : ∀ q ∈ qs, GoodPiece ctx q) :
    List.Forall₂ Token.SameOutline (qs.map (·.token)) (others.map (·.token)) := by
  fun_induction trimLast qs generalizing before others with
  | case1 =>
    cases h
    exact .nil
  | case2 q =>
    have hq := hgood q (by simp)
    cases h with
    | cons rereads rest =>
      cases rest
      exact .cons (hq.trim.outline hq.regular rereads.kind rereads.text) .nil
  | case3 q r qs ih =>
    have hq := hgood q (by simp)
    cases h with
    | cons rereads rest =>
      refine .cons ?_ (ih rest fun q hmem => hgood q (List.mem_cons_of_mem _ hmem))
      exact hq.written.last.outline hq.regular rereads.kind rereads.text

/-- The closers need to have one blank between their words. -/
theorem Item.Reread.widths (h : Item.Reread before (trimLast qs) others)
    (hgood : ∀ q ∈ qs, GoodPiece ctx q) (hopens : ∀ q ∈ qs, q.token.Opens ctx.dialect.lexicon)
    (hothers : ∀ item ∈ others, item.token.Sound ctx.dialect ∧ item.token.Opens ctx.dialect.lexicon)
    (hclosers : ∀ q ∈ qs, q.token.kind = .closeParen →
      (normalizePhrase q.token.text).length = q.token.text.length) :
    List.Forall₂ Groups.WideAs (qs.map (·.token)).dropLast (others.map (·.token)).dropLast := by
  fun_induction trimLast qs generalizing before others with
  | case1 =>
    cases h
    exact .nil
  | case2 q =>
    cases h with
    | cons rereads rest =>
      cases rest
      exact .nil
  | case3 q r qs ih =>
    have hq := hgood q (by simp)
    cases h with
    | @cons _ _ _ item items rereads rest =>
      have hitem := hothers item (by simp)
      have hne : items.map (·.token) ≠ [] := by
        intro habs
        obtain rfl := List.map_eq_nil_iff.mp habs
        cases qs <;> cases rest
      have hrest := ih rest (fun q hmem => hgood q (List.mem_cons_of_mem _ hmem))
        (fun q hmem => hopens q (List.mem_cons_of_mem _ hmem))
        (fun i hmem => hothers i (List.mem_cons_of_mem _ hmem))
        (fun q hmem => hclosers q (List.mem_cons_of_mem _ hmem))
      have hlast : ((item :: items).map (·.token)).dropLast =
          item.token :: (items.map (·.token)).dropLast := List.dropLast_cons_of_ne_nil hne
      rw [hlast]
      exact .cons (hq.written.wideAs hq.regular (hopens q (by simp)) hitem.1 hitem.2 rereads.kind
        rereads.text (hclosers q (by simp))) hrest

theorem forall₂_measure {groups groups' : Groups}
    (h : ∀ (i : Nat) (s : State), groups.fits i (s.available ctx) = groups'.fits i (s.available ctx))
    (hlength : items.length = others.length) (i : Nat) :
    List.Forall₂ (Item.FitsAlike ctx) (Item.measure groups i items)
      (Item.measure groups' i others) := by
  induction items generalizing others i with
  | nil =>
    obtain rfl := List.length_eq_zero_iff.mp hlength.symm
    exact .nil
  | cons item items ih =>
    obtain ⟨other, others, rfl⟩ := List.exists_cons_of_length_eq_add_one hlength.symm
    exact .cons (h i) (ih (Nat.succ.inj hlength) (i + 1))

/-- The groups of two texts fit into the same room if their tokens have the same outlines and, where lines
are limited, the same widths. -/
theorem fitsAlike_ofTokens
    (h : List.Forall₂ Token.SameOutline ((Item.ofTokens tokens).map (·.token))
      ((Item.ofTokens tokens').map (·.token)))
    (hwidth : ctx.style.maxLineLength = 0 ∨ List.Forall₂ Groups.WideAs
      ((Item.ofTokens tokens).map (·.token)).dropLast
      ((Item.ofTokens tokens').map (·.token)).dropLast) :
    List.Forall₂ (Item.FitsAlike ctx) (Item.ofTokens tokens) (Item.ofTokens tokens') := by
  have hlength := h.length_eq
  simp only [Item.map_token_ofTokens] at h hwidth hlength
  refine forall₂_measure (fun i s => ?_) ?_ 0
  · rw [Item.map_token_gather, Item.map_token_gather]
    refine Groups.fits_congr h (hwidth.imp_left fun hzero => ?_) i
    rw [State.available, if_pos hzero]
  · rw [← Item.map_token_gather .nothing, ← Item.map_token_gather .nothing, List.length_map,
      List.length_map] at hlength
    exact hlength

end Layout

end SqlFormat

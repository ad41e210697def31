import Mathlib
import SqlFormat.Proofs.Layout.Alike
import SqlFormat.Proofs.Layout.Spelling
import SqlFormat.Proofs.Token.Correspond

/-!
# Items read back

A text that is spelt out in pieces is cut into their tokens again. Of the blanks of the pieces layout sees,
when it reads the text, what it sees of any source: where a bracket stands apart from what is before it, and
where a comment starts or ends a line.

Results: `alike_displayText` (a token), `reread_ofTokens` (the items of a text).
-/

namespace SqlFormat.Layout

open Text Lexer

/-! ## Tokens -/

variable {ctx : Context}

/-- Layout cannot tell a token from the one that is read back from its writing. -/
theorem alike_displayText {dialect : Dialect} {t u : Token} (hregular : t.Regular dialect)
    (hsignificant : t.kind.isSignificant = true) (hkind : u.kind = t.kind)
    (htext : u.text = State.displayText ctx t) : Alike ctx t u := by
  have hc : t.kind.isComment = false := by
    simp only [TokenKind.isSignificant, Bool.and_eq_true, Bool.not_eq_true'] at hsignificant
    exact hsignificant.2
  have hsame : Resembles t u := by
    have := Written.resembles hregular hsignificant (written_displayText ctx hc) u.pos u.key
    rwa [String.ofList_toList, ← htext, ← hkind] at this
  cases hk : t.isKeyword with
  | false =>
    rw [State.displayText, hk, if_neg Bool.false_ne_true] at htext
    exact .of_text hkind.symm htext.symm
  | true =>
    have hkeyword : u.isKeyword = true := by
      rw [← hk, Token.isKeyword, Token.isKeyword, hkind, hsame.isBracket]
    refine ⟨hsame.kind, hsame.isBracket, hsame.keyText, ?_, fun hplain => ?_⟩
    · rw [State.displayText, State.displayText, if_pos hk, if_pos hkeyword, htext,
        State.displayText, if_pos hk, apply_keyword hregular.toSound hk]
    · rw [hk] at hplain
      cases hplain

/-! ## Items -/

namespace Item

/-- The item is read back from a piece that stands behind a token and before other pieces. -/
structure Rereads (before : Option Token) (q : Piece) (next : List Piece) (item : Item) : Prop where
  kind : item.token.kind = q.token.kind
  text : item.token.text = String.ofList q.text
  apart : isOpeningBracket item.token = true →
    (item.apart = true ↔ q.gap ≠ [] ∨ ∃ a ∈ before, a.kind.isComment = true)
  startsLine : item.token.kind.isComment = true →
    (item.startsLine = true ↔ before = none ∨ '\n' ∈ q.gap)
  endsLine : item.token.kind = .blockComment →
    (item.endsLine = true ↔ ∃ r ∈ next.head?, '\n' ∈ r.gap)
  lineEnd : item.token.kind = .lineComment → item.endsLine = true

/-- The items are read back from pieces that stand behind a token, if there is one. -/
inductive Reread : Option Token → List Piece → List Item → Prop
  | nil {before : Option Token} : Reread before [] []
  | cons {before : Option Token} {q : Piece} {qs : List Piece} {item : Item} {items : List Item}
      (rereads : item.Rereads before q qs) (rest : Reread (some q.token) qs items) :
      Reread before (q :: qs) (item :: items)

variable {before : Option Token} {qs : List Piece} {items : List Item}

theorem Reread.measure (h : Reread before qs items) (groups : Groups) (i : Nat) :
    Reread before qs (measure groups i items) := by
  induction h generalizing i with
  | nil => exact .nil
  | cons rereads _ ih =>
    obtain ⟨kind, text, apart, startsLine, endsLine, lineEnd⟩ := rereads
    exact .cons ⟨kind, text, apart, startsLine, endsLine, lineEnd⟩ (ih (i + 1))

/-! ### The last item -/

/-- The item with another text. -/
def withText (item : Item) (text : String) : Item :=
  { item with token := { item.token with text := text } }

/-- A bracket is not changed by trimming. -/
theorem trimmed_of_isBracket {t : Token} (h : t.isBracket = true) : Trimmed t.text.toList := by
  simp only [Token.isBracket, Bool.and_eq_true, Bool.or_eq_true, beq_iff_eq] at h
  rcases h.2 with ((h | h) | h) | h <;> rw [h] <;> rfl

theorem Rereads.withText {q : Piece} {next : List Piece} {item : Item}
    (h : item.Rereads before { q with text := dropWhileEnd isWhite q.text } next) :
    (item.withText (String.ofList q.text)).Rereads before q next := by
  refine ⟨h.kind, rfl, fun hopening => h.apart ?_, h.startsLine, h.endsLine, h.lineEnd⟩
  have hbracket : (item.withText (String.ofList q.text)).token.isBracket = true := by
    simp only [isOpeningBracket, Bool.and_eq_true] at hopening
    exact hopening.2
  have hsame : item.token.text = String.ofList q.text := by
    rw [h.text]
    have htrimmed := trimmed_of_isBracket hbracket
    rw [show (item.withText (String.ofList q.text)).token.text.toList = q.text from
      String.toList_ofList] at htrimmed
    exact congrArg String.ofList htrimmed
  have htoken : item.withText (String.ofList q.text) = item := by
    rw [Item.withText, ← hsame]
  rwa [htoken] at hopening

/-- Items are read back from pieces of which the last one has been trimmed. But for the text of the last
item, they could have been read back from the pieces themselves. -/
theorem Reread.exists_untrimmed (h : Reread before (trimLast qs) items) : (qs = [] ∧ items = []) ∨
    ∃ init x q, items = init ++ [x] ∧ q ∈ qs.getLast? ∧ x.token.kind = q.token.kind ∧
      x.token.text = String.ofList (dropWhileEnd isWhite q.text) ∧
      Reread before qs (init ++ [x.withText (String.ofList q.text)]) := by
  fun_induction trimLast qs generalizing before items with
  | case1 =>
    cases h
    exact .inl ⟨rfl, rfl⟩
  | case2 q =>
    cases h with
    | cons rereads rest =>
      cases rest
      exact .inr ⟨[], _, q, rfl, rfl, rereads.kind, rereads.text, .cons rereads.withText .nil⟩
  | case3 q r qs ih =>
    cases h with
    | @cons _ _ _ item items rereads rest =>
      obtain ⟨hnil, -⟩ | ⟨init, x, q', rfl, hlast, hkind, htext, hreread⟩ := ih rest
      · cases hnil
      · refine .inr ⟨item :: init, x, q', rfl, by rwa [List.getLast?_cons_cons], hkind, htext, ?_⟩
        obtain ⟨kind, text, apart, startsLine, endsLine, lineEnd⟩ := rereads
        refine .cons ⟨kind, text, apart, startsLine, fun hk => (endsLine hk).trans ?_, lineEnd⟩ hreread
        cases qs <;> simp [trimLast]

/-! ### What stands before -/

namespace Before

/-- The token that stands before. -/
def token? : Before → Option Token
  | nothing => none
  | first t | later t => some t

/-- What stands before a piece without its blanks. -/
structure Stands (b : Before) (before : Option Token) : Prop where
  kind : b.token?.map (·.kind) = before.map (·.kind)
  solid : ∀ a ∈ before, a.kind ≠ .whitespace

/-- What stands before a piece, its blanks included. -/
def behind (b : Before) (gap : List Char) (pos : Nat) : Before :=
  if gap.isEmpty then b else b.next (.plain .whitespace (String.ofList gap) pos)

theorem token?_next (b : Before) (t : Token) : (b.next t).token? = some t := by
  cases b <;> rfl

theorem stands_next (b : Before) {t a : Token} (hkind : t.kind = a.kind) (ha : a.kind ≠ .whitespace) :
    (b.next t).Stands (some a) := by
  refine ⟨by rw [token?_next, Option.map_some, Option.map_some, hkind], ?_⟩
  rintro _ ⟨⟩
  exact ha

variable {b : Before}

theorem Stands.cases (h : b.Stands before) : (b = .nothing ∧ before = none) ∨
    ∃ t a, (b = .first t ∨ b = .later t) ∧ before = some a ∧ t.kind = a.kind ∧
      t.kind ≠ .whitespace := by
  have hkind := h.kind
  cases hbefore : before with
  | none =>
    rw [hbefore] at hkind
    cases b with
    | nothing => exact .inl ⟨rfl, rfl⟩
    | first t => cases hkind
    | later t => cases hkind
  | some a =>
    have ha := h.solid a hbefore
    rw [hbefore] at hkind
    right
    cases b with
    | nothing => cases hkind
    | first t =>
      have hk : t.kind = a.kind := Option.some.inj hkind
      exact ⟨t, a, .inl rfl, rfl, hk, hk ▸ ha⟩
    | later t =>
      have hk : t.kind = a.kind := Option.some.inj hkind
      exact ⟨t, a, .inr rfl, rfl, hk, hk ▸ ha⟩

theorem Stands.isGap (h : b.Stands before) (gap : List Char) (pos : Nat) :
    (b.behind gap pos).isGap = true ↔ gap ≠ [] ∨ ∃ a ∈ before, a.kind.isComment = true := by
  unfold behind
  cases gap with
  | nil =>
    rcases h.cases with ⟨rfl, rfl⟩ | ⟨t, a, rfl | rfl, rfl, hkind, hsolid⟩
    · simp [Before.isGap]
    · simp [Before.isGap, ← hkind, hsolid]
    · simp [Before.isGap, ← hkind, hsolid]
  | cons c gap => cases b <;> simp [Before.next, Before.isGap, Token.plain]

theorem Stands.isLineStart (h : b.Stands before) (gap : List Char) (pos : Nat) :
    (b.behind gap pos).isLineStart = true ↔ before = none ∨ '\n' ∈ gap := by
  unfold behind
  cases gap with
  | nil =>
    rcases h.cases with ⟨rfl, rfl⟩ | ⟨t, a, rfl | rfl, rfl, hkind, hsolid⟩
    · simp [Before.isLineStart]
    · simp [Before.isLineStart, hsolid]
    · simp [Before.isLineStart, isLineBreak, hsolid]
  | cons c gap =>
    rcases h.cases with ⟨rfl, rfl⟩ | ⟨t, a, rfl | rfl, rfl, hkind, hsolid⟩
    · simp [Before.next, Before.isLineStart, Token.plain]
    · simp [Before.next, Before.isLineStart, Token.plain, isLineBreak, hasLineFeed]
    · simp [Before.next, Before.isLineStart, Token.plain, isLineBreak, hasLineFeed]

end Before

/-- The item of a token behind blanks. -/
theorem gather_blankTokens (b : Before) (gap : List Char) (pos : Nat) {t : Token}
    (ht : t.kind ≠ .whitespace) (ts : List Token) :
    gather b (blankTokens gap pos ++ t :: ts) =
      ofNeighbours (b.behind gap pos) t ts.head? :: gather ((b.behind gap pos).next t) ts := by
  have hcons : ∀ b : Before, gather b (t :: ts) =
      ofNeighbours b t ts.head? :: gather (b.next t) ts := by
    intro b
    rw [gather, if_neg (by simpa using ht)]
  unfold blankTokens Before.behind
  cases gap with
  | nil => exact hcons b
  | cons c gap =>
    rw [if_neg (by simp), if_neg (by simp), List.singleton_append, gather]
    exact hcons _

/-- What comes after a piece breaks the line if the next piece has a line feed before it. -/
theorem any_isLineBreak_relexed {lexicon : Lexicon} {ts : List Token}
    (h : Relexed lexicon qs [] ts) (hkind : ∀ q ∈ qs, q.token.kind ≠ .whitespace) :
    ts.head?.any isLineBreak = true ↔ ∃ r ∈ qs.head?, '\n' ∈ r.gap := by
  have hhead : ∀ (q : Piece) (pos pos' : Nat) (text : String) (key : Option PlaceholderKey)
      (rest : List Token), q.token.kind ≠ .whitespace →
      ((blankTokens q.gap pos ++ ⟨q.token.kind, text, pos', key⟩ :: rest).head?.any isLineBreak = true ↔
        '\n' ∈ q.gap) := by
    intro q pos pos' text key rest hq
    unfold blankTokens
    cases hgap : q.gap with
    | nil => simp [isLineBreak, hq]
    | cons c gap => simp [isLineBreak, Token.plain, hasLineFeed]
  generalize htail : ([] : List Char) = tail at h
  cases h with
  | nil =>
    subst htail
    simp [blankTokens]
  | cons pos pos' _ rest =>
    rw [hhead _ _ _ _ _ _ (hkind _ (by simp))]
    simp
  | last pos pos' key =>
    rw [hhead _ _ _ _ _ _ (hkind _ (by simp))]
    simp

theorem rereads_ofNeighbours {b : Before} (hb : b.Stands before) {q : Piece} {pos pos' : Nat}
    {key : Option PlaceholderKey} {ts : List Token}
    (hnext : ts.head?.any isLineBreak = true ↔ ∃ r ∈ qs.head?, '\n' ∈ r.gap) :
    (ofNeighbours (b.behind q.gap pos) ⟨q.token.kind, String.ofList q.text, pos', key⟩
      ts.head?).Rereads before q qs where
  kind := rfl
  text := rfl
  apart hopen := by
    rw [← hb.isGap q.gap pos]
    change isOpeningBracket _ = true at hopen
    simp only [ofNeighbours] at hopen ⊢
    rw [hopen, Bool.true_and]
  startsLine hc := by
    rw [← hb.isLineStart q.gap pos]
    simp only [ofNeighbours] at hc ⊢
    rw [hc, Bool.true_and]
  endsLine hk := by
    rw [← hnext]
    simp only [ofNeighbours] at hk ⊢
    simp [hk]
  lineEnd hk := by
    simp only [ofNeighbours] at hk ⊢
    simp [hk]

/-- The items of a text that is spelt out are read back from its pieces. -/
theorem reread_gather {lexicon : Lexicon} {ts : List Token} (h : Relexed lexicon qs [] ts)
    (hkind : ∀ q ∈ qs, q.token.kind ≠ .whitespace) {b : Before} (hb : b.Stands before) :
    Reread before qs (gather b ts) := by
  generalize htail : ([] : List Char) = tail at h
  induction h generalizing before b with
  | nil =>
    subst htail
    exact .nil
  | @cons q qs tail ts pos pos' _ rest ih =>
    have hq : q.token.kind ≠ .whitespace := hkind q (by simp)
    have hqs : ∀ r ∈ qs, r.token.kind ≠ .whitespace := fun r hr => hkind r (List.mem_cons_of_mem _ hr)
    have ht : (⟨q.token.kind, String.ofList q.text, pos', q.token.key⟩ : Token).kind ≠ .whitespace := hq
    rw [gather_blankTokens b q.gap pos ht]
    subst htail
    exact .cons (rereads_ofNeighbours hb (any_isLineBreak_relexed rest hqs))
      (ih hqs (Before.stands_next _ rfl hq) rfl)
  | @last q tail pos pos' key =>
    have hq : q.token.kind ≠ .whitespace := hkind q (by simp)
    have ht : (⟨q.token.kind, String.ofList q.text, pos', key⟩ : Token).kind ≠ .whitespace := hq
    subst htail
    rw [List.append_nil, gather_blankTokens b q.gap pos ht]
    exact .cons (rereads_ofNeighbours hb (by simp)) .nil

/-- **What is read back**: layout reads a text that is spelt out from its pieces. -/
theorem reread_ofTokens {lexicon : Lexicon} {ts : List Token}
    (h : Relexed lexicon qs [] ts) (hkind : ∀ q ∈ qs, q.token.kind ≠ .whitespace) :
    Reread none qs (ofTokens ts) :=
  have hstart : Before.nothing.Stands none := ⟨rfl, by simp⟩
  (reread_gather h hkind hstart).measure _ 0

end Item

end SqlFormat.Layout

import Mathlib
import SqlFormat.Proofs.Layout.Spelling

/-!
# The items of a text

What the lexer says of tokens carries over to the items that layout works on, whatever white space
stood between them.

Results: `map_token_ofTokens`, `mem_of_mem_ofTokens`, `isChain_ofTokens`, `startsLine_head`.
-/

namespace SqlFormat.Layout.Item

open Text Lexer

/-- Measuring changes the width of groups only. -/
theorem measure_forall {p : Item → Prop} (hp : ∀ item width, p item → p { item with inlineWidth := width })
    (groups : Groups) (i : Nat) {items : List Item} (h : ∀ item ∈ items, p item) :
    ∀ item ∈ measure groups i items, p item := by
  induction items generalizing i with
  | nil => simp [measure]
  | cons item items ih =>
    rintro j (_ | ⟨_, hj⟩)
    · exact hp item _ (h item (by simp))
    · exact ih (i + 1) (fun k hk => h k (List.mem_cons_of_mem _ hk)) j hj

theorem map_token_measure (groups : Groups) (i : Nat) (items : List Item) :
    (measure groups i items).map (·.token) = items.map (·.token) := by
  induction items generalizing i with
  | nil => rfl
  | cons item items ih => rw [measure, List.map_cons, List.map_cons, ih]

theorem map_token_gather (before : Before) (tokens : List Token) :
    (gather before tokens).map (·.token) = tokens.filter (·.kind != .whitespace) := by
  induction tokens generalizing before with
  | nil => rfl
  | cons t ts ih =>
    rw [gather]
    split
    · next hw => rw [ih, List.filter_cons_of_neg (by simpa using hw)]
    · next hw => rw [List.map_cons, ih, List.filter_cons_of_pos (by simpa using hw)]; rfl

/-- The items are those of the tokens other than white space. -/
theorem map_token_ofTokens (tokens : List Token) :
    (ofTokens tokens).map (·.token) = tokens.filter (·.kind != .whitespace) := by
  rw [ofTokens, map_token_measure, map_token_gather]

theorem mem_of_mem_ofTokens {tokens : List Token} {item : Item} (h : item ∈ ofTokens tokens) :
    item.token ∈ tokens ∧ item.token.kind ≠ .whitespace := by
  have hmem := List.mem_map_of_mem (f := (·.token)) h
  rw [map_token_ofTokens] at hmem
  simpa using List.mem_filter.mp hmem

theorem endsLine_gather (before : Before) (tokens : List Token) :
    ∀ item ∈ gather before tokens, item.token.kind = .lineComment → item.endsLine = true := by
  induction tokens generalizing before with
  | nil => simp [gather]
  | cons t ts ih =>
    rw [gather]
    split
    · exact ih _
    · rintro item (_ | ⟨_, hi⟩) hk
      · change t.kind = .lineComment at hk
        simp [ofNeighbours, hk]
      · exact ih _ item hi hk

/-- Between two items there is white space, or nothing. -/
theorem head?_gather {before : Before} {t : Token} {ts : List Token} (h : (t :: ts).IsChain Adjacent)
    {item : Item} (hitem : item ∈ (gather (before.next t) ts).head?) :
    (∃ w after, ts.head? = some w ∧ w.kind = .whitespace ∧
        item = ofNeighbours (.later w) item.token after) ∨
      ∃ after, ts.head? = some item.token ∧ item.token.kind ≠ .whitespace ∧
        item = ofNeighbours (before.next t) item.token after := by
  cases ts with
  | nil => cases hitem
  | cons u us =>
    rw [gather] at hitem
    by_cases hu : u.kind = .whitespace
    · left
      have hlater : (before.next t).next u = .later u := by cases before <;> rfl
      simp only [hu, beq_self_eq_true, if_true, hlater] at hitem
      cases us with
      | nil => cases hitem
      | cons v vs =>
        have hv : ¬(v.kind == .whitespace) = true := by simpa [hu] using h.tail.rel.follows.1
        rw [gather, if_neg hv] at hitem
        obtain rfl := Option.some.inj hitem
        exact ⟨u, vs.head?, rfl, hu, rfl⟩
    · right
      rw [if_neg (by simpa using hu)] at hitem
      obtain rfl := Option.some.inj hitem
      exact ⟨us.head?, rfl, hu, rfl⟩

/-- No comment stands first on the line on which another one has ended, and a comment leaves a bracket
standing apart. -/
theorem follows_ofNeighbours {before : Before} {t : Token} {ts : List Token}
    (h : (t :: ts).IsChain Adjacent) (ht : t.kind ≠ .whitespace) {item : Item}
    (hitem : item ∈ (gather (before.next t) ts).head?) :
    (ofNeighbours before t ts.head?).Follows item := by
  have hadjacent : ∀ u ∈ ts.head?, Adjacent t u := h.rel_head?
  have hnext : t.kind.isComment = true → (before.next t).isGap = true ∧
      (before.next t).isLineStart = false := by
    intro hc
    have hbreak : isLineBreak t = false := by simp [isLineBreak, ht]
    cases before <;> simp [Before.next, Before.isGap, Before.isLineStart, hc, ht, hbreak]
  have hends : t.kind.isComment = true → (ofNeighbours before t ts.head?).endsLine =
      ts.head?.any isLineBreak := by
    intro hc
    cases hk : t.kind with
    | blockComment => simp [ofNeighbours, hk]
    | lineComment =>
      -- a line comment ends where a line feed is
      cases ts with
      | nil => cases hitem
      | cons u us =>
        obtain ⟨hu, hfeed⟩ := (hadjacent u rfl).follows.2 hk
        have hmem : '\n' ∈ u.text.toList := List.mem_of_mem_head? hfeed
        simp [ofNeighbours, hk, isLineBreak, hu, hasLineFeed, hmem]
    | _ => rw [hk] at hc; cases hc
  rcases head?_gather h hitem with ⟨w, after, hhead, hw, heq⟩ | ⟨after, hhead, hkind, heq⟩
  · refine ⟨fun hc hc' => ?_, fun hc hopen => ?_, fun hl => (hadjacent w hhead).tidy ht hl⟩
    · rw [hends hc, hhead, heq]
      simp [ofNeighbours, hc', Before.isLineStart]
    · rw [heq]
      simp [ofNeighbours, hopen, Before.isGap, hw]
  · refine ⟨fun hc hc' => ?_, fun hc hopen => ?_, fun hl => (hadjacent _ hhead).tidy ht hl⟩
    · rw [hends hc, hhead, heq]
      simp [ofNeighbours, (hnext hc).2, isLineBreak, hkind]
    · rw [heq]
      simp [ofNeighbours, hopen, (hnext hc).1]

theorem isChain_gather (before : Before) {tokens : List Token} (h : tokens.IsChain Adjacent) :
    (gather before tokens).IsChain Follows := by
  induction tokens generalizing before with
  | nil => exact .nil
  | cons t ts ih =>
    rw [gather]
    split
    · exact ih _ h.tail
    · next hw =>
      exact List.isChain_cons.mpr
        ⟨fun item hitem => follows_ofNeighbours h (by simpa using hw) hitem, ih _ h.tail⟩

theorem isChain_measure (groups : Groups) (i : Nat) {items : List Item}
    (h : items.IsChain Follows) : (measure groups i items).IsChain Follows := by
  induction items generalizing i with
  | nil => exact .nil
  | cons item items ih =>
    rw [measure]
    refine List.isChain_cons.mpr ⟨fun next hnext => ?_, ih (i + 1) h.tail⟩
    cases items with
    | nil => cases hnext
    | cons j js =>
      obtain rfl := Option.some.inj hnext
      exact ⟨h.rel.startsLine, h.rel.apart, h.rel.tidy⟩

/-- The items of a text follow each other as layout asks for. -/
theorem isChain_ofTokens {tokens : List Token} (h : tokens.IsChain Adjacent) :
    (ofTokens tokens).IsChain Follows :=
  isChain_measure _ 0 (isChain_gather _ h)

/-- A comment that nothing but white space stands before is first on its line. -/
theorem startsLine_head {tokens : List Token} (h : tokens.IsChain Adjacent) :
    ∀ item ∈ (ofTokens tokens).head?, item.token.kind.isComment = true → item.startsLine = true := by
  have hgather : ∀ item ∈ (gather .nothing tokens).head?, item.token.kind.isComment = true →
      item.startsLine = true := by
    intro item hitem hc
    cases tokens with
    | nil => cases hitem
    | cons t ts =>
      rw [gather] at hitem
      by_cases ht : t.kind = .whitespace
      · rw [if_pos (by simpa using ht)] at hitem
        cases ts with
        | nil => cases hitem
        | cons u us =>
          have hu : ¬(u.kind == .whitespace) = true := by simpa [ht] using h.rel.follows.1
          rw [gather, if_neg hu] at hitem
          obtain rfl := Option.some.inj hitem
          change u.kind.isComment = true at hc
          simp [ofNeighbours, hc, Before.next, Before.isLineStart, ht]
      · rw [if_neg (by simpa using ht)] at hitem
        obtain rfl := Option.some.inj hitem
        change t.kind.isComment = true at hc
        simp [ofNeighbours, hc, Before.isLineStart]
  rw [ofTokens]
  cases hitems : gather .nothing tokens with
  | nil => simp [measure]
  | cons first items =>
    rintro item hitem hc
    obtain rfl := Option.some.inj hitem
    exact hgather first (by rw [hitems]; rfl) hc

/-- The items of a text are as layout asks for if its tokens are. -/
theorem sound_ofTokens {ctx : Context} {tokens : List Token}
    (h : ∀ t ∈ tokens, t.Regular ctx.dialect) : ∀ item ∈ ofTokens tokens, item.Sound ctx := by
  intro item hitem
  obtain ⟨hmem, hkind⟩ := mem_of_mem_ofTokens hitem
  refine ⟨h _ hmem, hkind, ?_⟩
  exact measure_forall (p := fun item => item.token.kind = .lineComment → item.endsLine = true)
    (fun item width h => h) _ 0 (endsLine_gather _ tokens) item hitem

end SqlFormat.Layout.Item

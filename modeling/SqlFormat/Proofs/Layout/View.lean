import Mathlib
import SqlFormat.Proofs.Layout.Alike

/-!
# What layout sees of the source

Of the white space in the source, layout sees whether an opening bracket stood apart from what is
before it, whether a comment stood first on its line and whether a block comment stood last on its
line. Two token sequences that agree in these, and in the kinds and texts of the other tokens, are
laid out alike, wherever their tokens stand and however much white space is between them.

Results: `layout_eq_of_sameView`.
-/

namespace SqlFormat.Layout

/-! ## Places -/

/-- A token with the tokens before it, nearest first, and the tokens after it. -/
structure Place where
  before : List Token
  token : Token
  after : List Token

/-- The places of the tokens that follow `before`. -/
def placesAfter (before : List Token) : List Token → List Place
  | [] => []
  | t :: ts => ⟨before, t, ts⟩ :: placesAfter (t :: before) ts

/-- The places of a token sequence, those of white space left out. -/
def places (tokens : List Token) : List Place :=
  (placesAfter [] tokens).filter (·.token.kind != .whitespace)

namespace Place

/-- White space or a comment stands directly before. -/
def Apart (p : Place) : Prop :=
  ∃ t ∈ p.before.head?, t.kind = .whitespace ∨ t.kind.isComment = true

/-- Nothing stands before, or white space that is the first of all tokens or holds a line feed. -/
def StartsLine (p : Place) : Prop :=
  p.before = [] ∨
    ∃ t earlier, p.before = t :: earlier ∧ t.kind = .whitespace ∧
      (earlier = [] ∨ '\n' ∈ t.text.toList)

/-- White space with a line feed stands directly after. -/
def EndsLine (p : Place) : Prop :=
  ∃ t ∈ p.after.head?, t.kind = .whitespace ∧ '\n' ∈ t.text.toList

/-- Layout cannot tell the places apart. -/
structure SameView (p q : Place) : Prop where
  kind : p.token.kind = q.token.kind
  text : p.token.text = q.token.text
  apart : p.token.kind = .openParen → p.token.text = "(" ∨ p.token.text = "[" →
    (p.Apart ↔ q.Apart)
  startsLine : p.token.kind.isComment = true → (p.StartsLine ↔ q.StartsLine)
  endsLine : p.token.kind = .blockComment → (p.EndsLine ↔ q.EndsLine)

end Place

/-! ## From places to items -/

namespace Item

/-- What the last of some tokens is to the next one, nearest first. -/
def Before.ofTokens : List Token → Before
  | [] => .nothing
  | [t] => .first t
  | t :: _ :: _ => .later t

/-- The item of a place, without the width of its group. -/
def ofPlace (p : Place) : Item :=
  ofNeighbours (.ofTokens p.before) p.token p.after.head?

theorem Before.next_ofTokens (before : List Token) (t : Token) :
    (Before.ofTokens before).next t = .ofTokens (t :: before) := by
  rcases before with _ | ⟨_, _ | ⟨_, _⟩⟩ <;> rfl

theorem gather_eq (before ts : List Token) :
    gather (.ofTokens before) ts =
      ((placesAfter before ts).filter (·.token.kind != .whitespace)).map ofPlace := by
  induction ts generalizing before with
  | nil => rfl
  | cons t ts ih =>
    simp only [gather, placesAfter, Before.next_ofTokens, ih]
    cases hkind : t.kind == .whitespace with
    | true => rw [List.filter_cons_of_neg (by simpa using hkind), if_pos rfl]
    | false =>
      rw [List.filter_cons_of_pos (by simpa using hkind), if_neg Bool.false_ne_true]
      rfl

theorem ofTokens_eq (ts : List Token) :
    ofTokens ts =
      measure (Groups.ofTokens ((places ts).map (·.token))) 0 ((places ts).map ofPlace) := by
  have hgather : gather .nothing ts = (places ts).map ofPlace := gather_eq [] ts
  unfold ofTokens
  simp only [hgather, List.map_map]
  rfl

theorem isGap_ofPlace {p : Place} : (Before.ofTokens p.before).isGap = true ↔ p.Apart := by
  unfold Place.Apart
  rcases p.before with _ | ⟨t, _ | ⟨_, _⟩⟩ <;> simp [Before.ofTokens, Before.isGap]

theorem isLineStart_ofPlace {p : Place} :
    (Before.ofTokens p.before).isLineStart = true ↔ p.StartsLine := by
  unfold Place.StartsLine
  rcases p.before with _ | ⟨t, _ | ⟨_, _⟩⟩ <;>
    simp [Before.ofTokens, Before.isLineStart, isLineBreak, hasLineFeed]

theorem any_isLineBreak {p : Place} : p.after.head?.any isLineBreak = true ↔ p.EndsLine := by
  unfold Place.EndsLine
  cases p.after.head? <;> simp [isLineBreak, hasLineFeed]

instance (p : Place) : Decidable p.Apart := decidable_of_iff _ isGap_ofPlace

instance (p : Place) : Decidable p.StartsLine := decidable_of_iff _ isLineStart_ofPlace

instance (p : Place) : Decidable p.EndsLine := decidable_of_iff _ any_isLineBreak

instance : DecidableRel Place.SameView := fun _ _ =>
  decidable_of_iff (_ ∧ _ ∧ (_ → _ → _) ∧ (_ → _) ∧ (_ → _))
    ⟨fun h => ⟨h.1, h.2.1, h.2.2.1, h.2.2.2.1, h.2.2.2.2⟩,
     fun h => ⟨h.kind, h.text, h.apart, h.startsLine, h.endsLine⟩⟩

/-- Items that layout cannot tell apart. -/
structure SameView (i j : Item) : Prop where
  kind : i.token.kind = j.token.kind
  text : i.token.text = j.token.text
  apart : i.token.kind = .openParen → i.token.text = "(" ∨ i.token.text = "[" → i.apart = j.apart
  startsLine : i.startsLine = j.startsLine
  endsLine : i.endsLine = j.endsLine
  width : i.inlineWidth = j.inlineWidth

theorem SameView.apart_of_reads {ctx : Context} {i j : Item} (h : i.SameView j) {prev : Token}
    (hreads : State.ReadsApart ctx prev i.token) : i.apart = j.apart := by
  have hopening := hreads.opening
  have hclosing := hreads.text
  simp only [isOpeningBracket, Bool.and_eq_true, beq_iff_eq] at hopening
  simp only [hopening.2, Bool.true_and, Bool.or_eq_false_iff, beq_eq_false_iff_ne] at hclosing
  refine h.apart hopening.1 ?_
  simpa [Token.isBracket, hopening.1, hclosing] using hopening.2

theorem sameView_ofPlace {p q : Place} (h : p.SameView q) : (ofPlace p).SameView (ofPlace q) where
  kind := h.kind
  text := h.text
  apart hopen htext := by
    have hbracket : isOpeningBracket p.token = isOpeningBracket q.token := by
      simp only [isOpeningBracket, Token.isBracket, h.kind, h.text]
    change (isOpeningBracket p.token && _) = (isOpeningBracket q.token && _)
    rw [hbracket, Bool.eq_iff_iff.mpr (isGap_ofPlace.trans
      ((h.apart hopen htext).trans isGap_ofPlace.symm))]
  startsLine := by
    change (p.token.kind.isComment && _) = (q.token.kind.isComment && _)
    rw [← h.kind]
    cases hcomment : p.token.kind.isComment with
    | false => rfl
    | true => 
      rw [Bool.eq_iff_iff.mpr (isLineStart_ofPlace.trans
        ((h.startsLine hcomment).trans isLineStart_ofPlace.symm))]
  endsLine := by
    change (p.token.kind == _ || p.token.kind == _ && _) = (q.token.kind == _ || q.token.kind == _ && _)
    rw [← h.kind]
    cases hblock : p.token.kind == .blockComment with
    | false => rfl
    | true =>
      rw [Bool.eq_iff_iff.mpr (any_isLineBreak.trans
        ((h.endsLine (by simpa using hblock)).trans any_isLineBreak.symm))]
  width := rfl

theorem measure_sameView (groups : Groups) {items others : List Item}
    (h : List.Forall₂ SameView items others) (i : Nat) :
    List.Forall₂ SameView (measure groups i items) (measure groups i others) := by
  induction h generalizing i with
  | nil => exact .nil
  | cons hitem _ ih =>
    exact .cons ⟨hitem.kind, hitem.text, hitem.apart, hitem.startsLine, hitem.endsLine, rfl⟩ (ih _)

end Item

/-! ## Bracket groups -/

/-- The token without its place and its look-up key. -/
def bare (t : Token) : Token := .plain t.kind t.text 0

theorem scan_bare (scan : Groups.Scan) (i : Nat) (ts : List Token) :
    scan.run i (ts.map bare) = scan.run i ts := by
  induction ts generalizing scan i with
  | nil => rfl
  | cons t ts ih => exact ih _ _

theorem groups_bare (ts : List Token) : Groups.ofTokens (ts.map bare) = Groups.ofTokens ts := by
  unfold Groups.ofTokens
  rw [scan_bare, List.length_map, List.map_map, List.map_map]
  rfl

theorem groups_sameView {ps qs : List Place} (h : List.Forall₂ Place.SameView ps qs) :
    Groups.ofTokens (ps.map (·.token)) = Groups.ofTokens (qs.map (·.token)) := by
  rw [← groups_bare, ← groups_bare (qs.map _), List.map_map, List.map_map]
  congr 1
  induction h with
  | nil => rfl
  | cons hview _ ih =>
    simp only [List.map_cons, ih, Function.comp_apply, bare, hview.kind, hview.text]

theorem ofTokens_sameView {ts us : List Token}
    (h : List.Forall₂ Place.SameView (places ts) (places us)) :
    List.Forall₂ Item.SameView (Item.ofTokens ts) (Item.ofTokens us) := by
  rw [Item.ofTokens_eq, Item.ofTokens_eq, groups_sameView h]
  refine Item.measure_sameView _ ?_ 0
  rw [List.forall₂_map_left_iff, List.forall₂_map_right_iff]
  exact h.imp fun _ _ => Item.sameView_ofPlace

/-! ## Two runs -/

namespace State

variable {ctx : Context} {s : State} {p : Option Token} {item other : Item}

theorem spaceBefore_following (hp : Option.Rel (Alike ctx) s.prev p) (h : item.SameView other) :
    (s.following p).spaceBefore ctx other = s.spaceBefore ctx item := by
  unfold spaceBefore
  rw [show (s.following p).prev = p from rfl]
  cases hprev : s.prev with
  | none =>
    rw [hprev] at hp
    cases hp
    rfl
  | some prev =>
    rw [hprev] at hp
    cases hp with
    | some hprev =>
      have htoken : Alike ctx item.token other.token := .of_text h.kind h.text
      simp only [spaced_following hprev htoken h.apart_of_reads, hprev.wouldMerge _ h.text]

/-- A step leads from two states that differ in the token before to two states that differ in the
token before. -/
theorem step_sameView (hp : Option.Rel (Alike ctx) s.prev p) (h : item.SameView other) :
    ∃ p', (s.following p).step ctx other = (s.step ctx item).following p' ∧
      Option.Rel (Alike ctx) (s.step ctx item).prev p' := by
  unfold step
  rw [← h.kind]
  by_cases hcomment : item.token.kind.isComment = true
  · rw [if_pos hcomment, if_pos hcomment]
    refine ⟨p, comment_following h.kind h.text h.startsLine h.endsLine, ?_⟩
    rw [comment_eq]
    exact hp
  · have htoken : Alike ctx item.token other.token := .of_text h.kind h.text
    rw [if_neg hcomment, if_neg hcomment,
      significant_following ⟨htoken, by rw [h.width], hp, fun _ => spaceBefore_following hp h⟩]
    exact ⟨some other.token, rfl, .some htoken⟩

theorem run_sameView {items others : List Item} (hp : Option.Rel (Alike ctx) s.prev p)
    (h : List.Forall₂ Item.SameView items others) :
    ∃ p', (s.following p).run ctx others = (s.run ctx items).following p' := by
  induction h generalizing s p with
  | nil => exact ⟨p, rfl⟩
  | cons hitem _ ih =>
    obtain ⟨p', hstep, hp'⟩ := step_sameView hp hitem
    unfold run
    rw [List.foldl_cons, List.foldl_cons, hstep]
    exact ih hp'

end State

end SqlFormat.Layout

namespace SqlFormat

open Layout

/-- Layout sees nothing of the white space in the source but where brackets stand apart and where
comments stand on their lines: token sequences whose places look the same give the same text. -/
theorem layout_eq_of_sameView (ctx : Context) {ts us : List Token}
    (h : List.Forall₂ Place.SameView (places ts) (places us)) : layout? ctx ts = layout? ctx us := by
  obtain ⟨p, hrun⟩ : ∃ p, (State.start.following none).run ctx (Item.ofTokens us) =
      (State.start.run ctx (Item.ofTokens ts)).following p :=
    State.run_sameView .none (ofTokens_sameView h)
  have hlines : linesOf ctx us = linesOf ctx ts := congrArg (·.page.lines) hrun
  unfold layout?
  rw [hlines]

/-- Line feeds and indentation where there were spaces do not show. -/
theorem layout_eq_of_sameView_spread :
    let narrow : List Token :=
      [.plain .reservedTopLevel "select" 0, .plain .whitespace " " 6, .plain .word "f" 7,
        .plain .openParen "(" 8, .plain .word "a" 9, .plain .closeParen ")" 10,
        .plain .whitespace " " 11, .plain .lineComment "-- b" 12, .plain .whitespace "\n" 16,
        .plain .operator "," 17, .plain .word "c" 18]
    let spread : List Token :=
      [.plain .whitespace "\n" 0, .plain .reservedTopLevel "select" 1, .plain .whitespace "\n  " 7,
        .plain .word "f" 10, .plain .openParen "(" 11, .plain .whitespace " " 12,
        .plain .word "a" 13, .plain .whitespace "\n" 14, .plain .closeParen ")" 15,
        .plain .lineComment "-- b" 16, .plain .whitespace "\n\n" 20, .plain .operator "," 22,
        .plain .whitespace "\n " 23, .plain .word "c" 25]
    List.Forall₂ Place.SameView (places narrow) (places spread) ∧
      layout? ⟨.standard, .postgresql, fun _ text => text⟩ narrow =
        layout? ⟨.standard, .postgresql, fun _ text => text⟩ spread :=
  ⟨by decide, layout_eq_of_sameView _ (by decide)⟩

end SqlFormat

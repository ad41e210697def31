import Mathlib
import SqlFormat.Proofs.Layout.Depth
import SqlFormat.Proofs.Layout.Regroup
import SqlFormat.Proofs.Layout.Sheet
import SqlFormat.Proofs.Text.Reindent

/-!
# Laying out what was laid out

The items that are read back from the pieces of a run are laid out like the items of the run. Three places
need an argument: an opening bracket stands apart now where a space was written before it, a comment
starts a line now where it was put on one, and ends one where the next token was. So a line may have been
asked for behind a comment in one run only. If in the first, the next piece starts with a line feed, and
the comment ends its line in the second run as well, unless nothing follows it. If in the second, the next
token is one that starts a line by itself.

Results: `State.Abreast.step` (one token), `lines_reread` (all of them).
-/

namespace SqlFormat.Layout

open Text Lexer

variable {ctx : Context} {s r : State} {done ps qs : List Piece} {p q : Piece} {a : Token}
  {b : Option Token} {item other : Item} {items others : List Item}

/-- What reading back asks of the next item, apart from what layout does. -/
structure Item.Placed (done : List Piece) (item : Item) : Prop where
  /-- The first comment of all starts a line. -/
  first : done = [] → item.token.kind.isComment = true → item.startsLine = true
  /-- A bracket behind a comment stands apart. -/
  apart : ∀ b ∈ lastToken none done, b.kind.isComment = true → isOpeningBracket item.token = true →
    item.apart = true
  opening : ∀ b ∈ lastToken none done, isOpeningBracket b = true → b.text = "(" ∨ b.text = "["

theorem lastToken_eq_none_iff : lastToken none done = none ↔ done = [] := by
  simp [lastToken]

theorem exists_lastToken (h : done ≠ []) : ∃ b p, lastToken none done = some b ∧
    p ∈ done.getLast? ∧ p.token = b := by
  obtain ⟨p, hp⟩ := Option.isSome_iff_exists.mp (List.getLast?_isSome.mpr h)
  exact ⟨p.token, p, by simp [lastToken, hp], hp, rfl⟩

/-! ## Spaces -/

/-- No line is started for a bracket. -/
theorem Sight.placed_of_isOpeningBracket (v : Sight) (h : isOpeningBracket item.token = true) :
    (v.decision ctx item).placed = none := by
  simp only [isOpeningBracket, Bool.and_eq_true, beq_iff_eq] at h
  rw [Sight.decision, h.1]
  simp only [Sight.opener, h.2, if_true]
  split <;> rfl

namespace State

/-- Where layout reads whether a bracket stands apart, it follows what it reads. -/
theorem ReadsApart.spaced_eq (h : ReadsApart ctx a item.token) (hunary : s.unary = false) :
    s.spaced ctx a item = item.apart := by
  obtain ⟨hopening, hoperator, hbracket, htext, harray⟩ := h
  have hkind : item.token.kind ≠ .operator := by
    simp only [isOpeningBracket, Bool.and_eq_true, beq_iff_eq] at hopening
    simp [hopening.1]
  simp only [spaced, hunary, hbracket, htext, harray, hopening, Bool.false_eq_true, if_false, if_true]
  simp [hkind, hoperator]

/-- A bracket is read back as standing apart if it did, where it matters to layout. -/
theorem apart_reread (hs : Shows ctx s done) (hplaced : item.Placed done) (hprev : s.prev = some a)
    (hbreak : s.page.breakAt = none) (hreads : ReadsApart ctx a item.token)
    (hmerge : wouldMerge ctx.dialect.lexicon a item.token = false)
    (hwidens : Widens ((s.placed ctx item).piece ctx item) q)
    (hpaddable : ((s.placed ctx item).piece ctx item).gap = [] → q.gap ≠ [] →
      Paddable (lastToken none done) item.token)
    (hopening : isOpeningBracket other.token = true)
    (hrereads : other.Rereads (lastToken none done) q qs) : item.apart = other.apart := by
  have hne : done ≠ [] := by
    intro habs
    rw [hs.start habs] at hprev
    cases hprev
  obtain ⟨b, p, hlast, hp, rfl⟩ := exists_lastToken hne
  have hunary : s.unary = false := by
    by_contra hu
    obtain ⟨c, hc, hsign⟩ := hs.unary (by simpa using hu)
    obtain rfl := Option.some.inj (hprev.symm.trans hc)
    simp only [Token.isOperator, Bool.and_eq_true, beq_iff_eq] at hsign
    exact hreads.operator (hsign.elim (·.1) (·.1))
  have hspace : (s.placed ctx item).spaceBefore ctx item = item.apart := by
    change s.spaceBefore ctx item = item.apart
    rw [spaceBefore, hprev]
    simp only [hmerge, Bool.or_false]
    exact hreads.spaced_eq hunary
  have hgap : ((s.placed ctx item).piece ctx item).gap = if item.apart then [' '] else [] := by
    have hpage : (s.placed ctx item).page = s.page := by
      rw [State.placed, Sight.placed_of_isOpeningBracket _ hreads.opening]
      rfl
    have hline : s.page.line.text.isEmpty = false := by simpa using hs.line_ne hne
    simp [State.piece, Page.gap, hspace, hpage, hbreak, hline]
  obtain ⟨n, hwide⟩ := hwidens.gap
  have hiff := hrereads.apart hopening
  cases hap : item.apart with
  | true =>
    refine (hiff.mpr (.inl ?_)).symm
    simp [hwide, hgap, hap]
  | false =>
    have hcomment : ∀ c ∈ lastToken none done, c.kind.isComment = false := by
      intro c hc
      by_contra hcom
      have := hplaced.apart c hc (by simpa using hcom) hreads.opening
      rw [hap] at this
      cases this
    symm
    rw [Bool.eq_false_iff, Ne, hiff]
    rintro (hq | ⟨c, hc, hcom⟩)
    · -- spaces were put in, but not before a bracket to which they matter
      have hnil : ((s.placed ctx item).piece ctx item).gap = [] := by rw [hgap, hap]; rfl
      have hsame : s.prev = some p.token := hs.prev p hp (hcomment _ hlast)
      obtain rfl := Option.some.inj (hprev.symm.trans hsame)
      rcases (hpaddable hnil hq).bracket hreads.opening _ hlast with hcom | hoperator | hopens
      · rw [hcomment _ hlast] at hcom
        cases hcom
      · exact hreads.operator hoperator
      · have htext := hplaced.opening _ hlast hopens
        have hbracket := hreads.bracket
        simp only [isOpeningBracket, Bool.and_eq_true] at hopens
        rcases htext with htext | htext <;> simp [hopens.2, htext] at hbracket
    · rw [hcomment c hc] at hcom
      cases hcom

/-- A space is written before a word again if one was. -/
theorem spaceBefore_keyword (hs : Shows ctx s done) (hprev : Option.Rel (Alike ctx) s.prev b)
    (halike : Alike ctx item.token other.token) (hkeyword : item.token.isKeyword = true)
    (hhead : item.token.text.toList.head?.any Char.isAlpha = true)
    (hhead' : other.token.text.toList.head?.any Char.isAlpha = true) :
    (s.following b).spaceBefore ctx other = s.spaceBefore ctx item := by
  have hbracket : item.token.isBracket = false := by
    by_contra habs
    rw [(isKeyword_of_isBracket (by simpa using habs)).1] at hkeyword
    cases hkeyword
  have hopening : isOpeningBracket item.token = false := by
    rw [isOpeningBracket, hbracket, Bool.and_false]
  unfold spaceBefore
  rw [show (s.following b).prev = b from rfl]
  cases hp : s.prev with
  | none =>
    rw [hp] at hprev
    cases hprev
    rfl
  | some a =>
    rw [hp] at hprev
    cases hprev with
    | @some _ u hprev =>
      have hreads : ¬ReadsApart ctx a item.token := fun hreads => by simp [hreads.opening] at hopening
      simp only
      rw [spaced_following hprev halike fun habs => absurd habs hreads,
        ← hprev.wouldMerge ctx.dialect.lexicon rfl]
      cases hspaced : s.spaced ctx a item with
      | true => rfl
      | false =>
        congr 1
        have htight : Tight ctx.dialect a item.token := by
          refine tight_of_spaced hspaced fun hu => ?_
          obtain ⟨c, hc, hsign⟩ := hs.unary hu
          rw [hp, Option.some.injEq] at hc
          exact hc ▸ hsign
        have hoperator : item.token.kind ≠ .operator := by
          intro habs
          rw [(isKeyword_of_operator habs).1] at hkeyword
          cases hkeyword
        cases hkind : a.kind with
        | operator => exact wouldMerge_alpha ctx.dialect hkind hhead' hhead
        | number =>
          -- nothing but brackets and operators may touch a number
          cases htight with
          | opening h => simp [Token.isBracket, hkind] at h
          | sign h => simp [Token.isOperator, hkind] at h
          | after h => rw [hkind] at h; cases h
          | closing h => rw [hbracket] at h; cases h
          | before h => exact absurd h hoperator
          | group _ h => rw [hopening] at h; cases h
        | _ => simp [wouldMerge, hkind]

end State

/-! ## The same item -/

theorem Widens.feed_iff (h : Widens p q) : '\n' ∈ q.gap ↔ '\n' ∈ p.gap := by
  obtain ⟨n, hgap⟩ := h.gap
  rw [hgap, List.mem_append, or_iff_left]
  intro hmem
  exact absurd (List.eq_of_mem_replicate hmem) (by decide)

/-- The item is one of a run, and the other one is read back from its piece. -/
structure Item.Returned (ctx : Context) (s : State) (done qs : List Piece) (p q : Piece)
    (item other : Item) : Prop where
  shows : Shows ctx s done
  fair : item.Fair ctx done
  placed : item.Placed done
  adds : Adds ctx s item p
  widens : Widens p q
  paddable : p.gap = [] → q.gap ≠ [] → Paddable (lastToken none done) p.token
  rereads : other.Rereads (lastToken none done) q qs
  fits : item.FitsAlike ctx other

namespace Item.Returned

variable (h : item.Returned ctx s done qs p q other)
include h

theorem kind : other.token.kind = item.token.kind := by
  rw [h.rereads.kind, h.widens.token, h.adds.token]

theorem feed_iff : '\n' ∈ q.gap ↔ '\n' ∈ p.gap := h.widens.feed_iff

/-- A comment that ends its line in one of the two runs only is a block comment. -/
theorem kind_of_endsLine_ne (hc : item.token.kind.isComment = true)
    (hends : item.endsLine ≠ other.endsLine) : other.token.kind = .blockComment := by
  have hkind := h.kind
  cases hk : item.token.kind with
  | blockComment => rw [hkind, hk]
  | lineComment => exact absurd ((h.fair.endsLine hk).trans (h.rereads.lineEnd (hkind.trans hk)).symm) hends
  | _ => rw [hk] at hc; cases hc

theorem text_significant (hc : item.token.kind.isComment = false) :
    other.token.text = State.displayText ctx item.token := by
  obtain ⟨-, -, -, hadds, hwidens, -, hrereads, -⟩ := h
  cases hadds with
  | comment hcom => rw [hc] at hcom; cases hcom
  | significant => rw [hrereads.text, hwidens.text, State.piece, String.ofList_toList]

theorem alike (hc : item.token.kind.isComment = false) : Alike ctx item.token other.token :=
  alike_displayText h.fair.regular (by simp [TokenKind.isSignificant, h.fair.kind, hc]) h.kind
    (h.text_significant hc)

theorem spaceBefore (hc : item.token.kind.isComment = false)
    (hprev : Option.Rel (Alike ctx) s.prev b) (hbreak : s.page.breakAt = none) :
    (s.following b).spaceBefore ctx other = s.spaceBefore ctx item := by
  have halike := h.alike hc
  have htext := h.text_significant hc
  cases hkeyword : item.token.isKeyword with
  | true =>
    have hhead := (respaced_keyword h.fair.regular.toSound hkeyword ctx.keywordCase).head
    refine State.spaceBefore_keyword h.shows hprev halike hkeyword hhead.1 ?_
    rw [htext, State.displayText, if_pos hkeyword]
    exact hhead.2
  | false =>
    have hsame : item.token.text = other.token.text := halike.text hkeyword
    unfold State.spaceBefore
    rw [show (s.following b).prev = b from rfl]
    cases hp : s.prev with
    | none =>
      rw [hp] at hprev
      cases hprev
      rfl
    | some a =>
      rw [hp] at hprev
      cases hprev with
      | @some _ u hprev =>
        simp only
        rw [← hprev.wouldMerge ctx.dialect.lexicon hsame]
        cases hmerge : wouldMerge ctx.dialect.lexicon a item.token with
        | true => rw [Bool.or_true, Bool.or_true]
        | false =>
          rw [State.spaced_following hprev halike fun hreads => ?_]
          obtain ⟨hshows, -, hplaced, hadds, hwidens, hpaddable, hrereads, -⟩ := h
          cases hadds with
          | comment hcom => rw [hc] at hcom; cases hcom
          | significant =>
            exact State.apart_reread hshows hplaced hp hbreak hreads hmerge hwidens hpaddable
              (halike.isOpeningBracket ▸ hreads.opening) hrereads

theorem sameItem (hc : item.token.kind.isComment = false)
    (hprev : Option.Rel (Alike ctx) s.prev b) : State.SameItem ctx s b item other :=
  ⟨h.alike hc, h.fits s, hprev, h.spaceBefore hc hprev⟩

end Item.Returned

/-! ## Line feeds -/

/-- Behind a comment that ends a line, the next token comes after a line feed. -/
theorem Trace.feed_of_break (ht : Trace ctx s items ps) (hline : s.page.line.text ≠ "")
    (hbreak : s.page.breakAt.isSome = true)
    (hstarts : ∀ next ∈ items.head?, next.token.kind.isComment = true → next.startsLine = true) :
    ∀ p ∈ ps.head?, '\n' ∈ p.gap := by
  cases ht with
  | nil => simp
  | @cons _ item _ p _ adds _ =>
    rintro _ ⟨⟩
    refine List.mem_of_mem_head? ?_
    cases adds with
    | comment hc =>
      have hstart := hstarts item rfl hc
      have hbroken : s.broken item = s := by
        rw [State.broken, if_neg (by simp [Page.atLineStart, hbreak])]
      rw [State.commentPiece, if_neg (by simp [State.attaches, hstart]), hbroken]
      exact head_gap hline hbreak _ _
    | significant =>
      have hp := s.placed_placed ctx item
      exact head_gap (hp.line.1 ▸ hline) (hp.breakAt hbreak) _ _

/-- A comment is put on a line of its own just if it started one. -/
theorem feed_commentPiece_iff (hline : s.page.line.text ≠ "") :
    '\n' ∈ (s.commentPiece ctx item).gap ↔ item.startsLine = true := by
  have hempty : s.page.line.text.isEmpty = false := by simpa using hline
  cases hstart : item.startsLine with
  | true =>
    have hbroken : (s.broken item).page.line = s.page.line ∧
        (s.broken item).page.breakAt.isSome = true := by
      unfold State.broken
      split
      · exact ⟨rfl, rfl⟩
      · next hat =>
        refine ⟨rfl, Option.isSome_iff_ne_none.mpr ?_⟩
        simpa [hstart, Page.atLineStart, hempty] using hat
    rw [State.commentPiece, if_neg (by simp [State.attaches, hstart])]
    simp only [iff_true]
    exact List.mem_of_mem_head? (head_gap (hbroken.1 ▸ hline) hbroken.2 _ _)
  | false =>
    have hbroken : s.broken item = s := by rw [State.broken, if_neg (by simp [hstart])]
    rw [State.commentPiece]
    split
    · simp
    · next hat =>
      have hbreak : s.page.breakAt = none := by
        simpa [State.attaches, hstart, Page.atLineStart, hempty] using hat
      simp [hbroken, Page.gap, hbreak, hempty]

/-- A token that comes after a line feed although no line was asked for has started it by itself. -/
theorem placed_of_feed (hbreak : s.page.breakAt = none)
    (hfeed : '\n' ∈ ((s.placed ctx item).piece ctx item).gap) :
    ((s.sight ctx item.token).decision ctx item).placed.isSome = true := by
  rw [State.piece, State.placed] at hfeed
  cases hplaced : ((s.sight ctx item.token).decision ctx item).placed with
  | some indent => rfl
  | none =>
    simp only [hplaced, Page.place, Page.gap, hbreak] at hfeed
    split at hfeed <;> simp at hfeed

/-- Such a token is laid out alike where a line was asked for. -/
theorem significant_newline
    (hplaced : ((s.sight ctx item.token).decision ctx item).placed.isSome = true) (n : Nat) :
    (s.newline n).significant ctx item = s.significant ctx item := by
  have hdecision : ((s.newline n).sight ctx item.token).decision ctx item =
      (s.sight ctx item.token).decision ctx item := Sight.decision_of_placed _ rfl rfl hplaced
  obtain ⟨indent, hindent⟩ := Option.isSome_iff_exists.mp hplaced
  rw [State.significant_eq, State.significant_eq, hdecision]
  unfold State.decided State.written
  simp only [hindent]
  rfl

/-! ## Comments -/

/-- A comment is written on a line as it was written there before. -/
theorem commentText_again (hplain : ctx.Plain) (hfeed : '\n' ∉ ctx.style.indent.toList) {t u : Token}
    {indent : Nat} (hkind : u.kind = t.kind) (htext : u.text = State.commentText ctx t indent) :
    State.commentText ctx u indent = State.commentText ctx t indent := by
  have hwhite : AllWhite ctx.style.indent.toList := fun c hc => isBlank_imp_isWhite (hplain.indent c hc)
  rw [State.commentText, hkind, htext]
  unfold State.commentText
  split
  · rw [trimEnd, trimEnd, String.toList_ofList, dropWhileEnd_idem]
  · split
    · rfl
    · exact reindent_reindent hwhite hfeed indent t.text

/-! ## Two runs -/

/-- Two runs side by side, the second one over what is read back from the first: items and pieces are
those to come. -/
inductive State.Abreast (ctx : Context) (s r : State) (items : List Item) (next : List Piece) : Prop
  /-- The states differ in the token before at most. -/
  | level {b : Option Token} (hprev : Option.Rel (Alike ctx) s.prev b) (hr : r = s.following b)
  /-- The second run asks for a line behind a comment, as the next token starts one by itself. -/
  | ahead {b : Option Token} (hprev : Option.Rel (Alike ctx) s.prev b) (indent : Nat)
      (hr : r = (s.newline indent).following b) (hbreak : s.page.breakAt = none)
      (hstart : ∀ item ∈ items.head?, item.token.kind.isComment = true → item.startsLine = false)
      (hfeed : ∃ q ∈ next.head?, '\n' ∈ q.gap)
  /-- Nothing comes after a comment, and only the first run asks for a line. -/
  | ended (hnext : next = []) (hlines : r.page.lines = s.page.lines)

namespace State.Abreast

theorem lines_eq (h : Abreast ctx s r [] []) : r.page.lines = s.page.lines := by
  cases h with
  | level _ hr => rw [hr]; rfl
  | ahead _ _ _ _ _ hfeed => obtain ⟨q, hq, -⟩ := hfeed; cases hq
  | ended _ hlines => exact hlines

theorem significant (h : Abreast ctx s r (item :: items) (q :: qs))
    (hitem : item.Returned ctx s done qs p q other) (hc : item.token.kind.isComment = false) :
    Abreast ctx (s.step ctx item) (r.step ctx other) items qs := by
  have hstep : ∀ {s₁ : State} {b : Option Token}, SameItem ctx s₁ b item other →
      s₁.significant ctx item = s.significant ctx item → r = s₁.following b →
      Abreast ctx (s.step ctx item) (r.step ctx other) items qs := by
    intro s₁ b hsame hs₁ hr
    have hstep : s.step ctx item = { s.significant ctx item with prev := some item.token } := by
      rw [step, if_neg (by simp [hc])]
    have hstep' : r.step ctx other = (s.step ctx item).following (some other.token) := by
      rw [step, if_neg (by simp [hitem.kind, hc]), hr, significant_following hsame, hs₁, hstep]
      rfl
    refine .level (b := some other.token) ?_ hstep'
    rw [hstep]
    exact .some hsame.token
  cases h with
  | level hprev hr => exact hstep (hitem.sameItem hc hprev) rfl hr
  | ahead hprev indent hr hbreak _ hfeed =>
    obtain ⟨_, ⟨⟩, hfeed⟩ := hfeed
    rw [hitem.feed_iff] at hfeed
    have hplaced : ((s.sight ctx item.token).decision ctx item).placed.isSome = true := by
      cases hitem.adds with
      | comment hcom => rw [hc] at hcom; cases hcom
      | significant => exact placed_of_feed hbreak hfeed
    have hsame : SameItem ctx (s.newline indent) _ item other :=
      ⟨hitem.alike hc, hitem.fits _, hprev, fun habs => by cases habs⟩
    exact hstep hsame (significant_newline hplaced indent) hr
  | ended hnext => cases hnext

/-- A comment starts a line again if it did. -/
theorem startsLine_eq (hitem : item.Returned ctx s done qs p q other)
    (hc : item.token.kind.isComment = true) : item.startsLine = other.startsLine := by
  rw [Bool.eq_iff_iff, hitem.rereads.startsLine (hitem.kind ▸ hc), lastToken_eq_none_iff, hitem.feed_iff]
  by_cases hne : done = []
  · exact iff_of_true (hitem.placed.first hne hc) (.inl hne)
  · cases hitem.adds with
    | significant hcom => rw [hc] at hcom; cases hcom
    | comment =>
      rw [feed_commentPiece_iff (hitem.shows.line_ne hne)]
      simp [hne]

theorem comment (h : Abreast ctx s r (item :: items) (q :: qs)) (hplain : ctx.Plain)
    (hfeed : '\n' ∉ ctx.style.indent.toList) (hitem : item.Returned ctx s done qs p q other)
    (hc : item.token.kind.isComment = true) (hfollows : ∀ next ∈ items.head?, item.Follows next)
    (hrest : Trace ctx (s.step ctx item) items ps) (hwidens : List.Forall₂ Widens ps qs) :
    Abreast ctx (s.step ctx item) (r.step ctx other) items qs := by
  have hstarts := startsLine_eq hitem hc
  have hnext : ∀ next ∈ items.head?, next.token.kind.isComment = true →
      next.startsLine = item.endsLine := fun next hn => (hfollows next hn).startsLine hc
  have hshows := hitem.shows.step hplain hitem.fair hitem.adds
  have hline : (s.step ctx item).page.line.text ≠ "" := hshows.line_ne (by simp)
  have hadds := hitem.adds
  have hstep : ∀ (s : State) (item : Item), item.token.kind.isComment = true →
      s.step ctx item = s.comment ctx item := fun s item hc => by rw [step, if_pos hc]
  rw [hstep s item hc] at hrest hline ⊢
  rw [hstep r other (hitem.kind ▸ hc)]
  rw [comment_eq] at hrest hline ⊢
  cases h with
  | ended habs => cases habs
  | ahead _ _ _ _ hstart hgap =>
    -- the comment would start a line in the first run
    obtain ⟨_, ⟨⟩, hgap⟩ := hgap
    have hfalse := hstart item rfl hc
    have hne : done ≠ [] := by
      intro habs
      rw [hitem.placed.first habs hc] at hfalse
      cases hfalse
    rw [hitem.feed_iff] at hgap
    cases hadds with
    | significant hcom => rw [hc] at hcom; cases hcom
    | comment =>
      rw [feed_commentPiece_iff (hitem.shows.line_ne hne), hfalse] at hgap
      cases hgap
  | @level b hprev hr =>
    have htext : commentText ctx other.token (s.commentPage item).line.indent =
        commentText ctx item.token (s.commentPage item).line.indent := by
      cases hadds with
      | significant hcom => rw [hc] at hcom; cases hcom
      | comment =>
        refine commentText_again hplain hfeed hitem.kind ?_
        rw [hitem.rereads.text, hitem.widens.text, commentPiece, String.ofList_toList]
    have hwritten : r.commentWritten ctx other = s.commentWritten ctx item :=
      hr ▸ commentWritten_following hitem.kind.symm hstarts htext
    rw [comment_eq, hwritten]
    subst hr
    generalize s.commentWritten ctx item = page at hrest hline ⊢
    cases hbreak : page.breakAt with
    | some indent =>
      refine .level (b := b) hprev ?_
      simp [following]
    | none =>
      simp only [hbreak, Option.isNone_none, Bool.and_true] at hrest hline ⊢
      cases hends : item.endsLine with
      | true =>
        cases hends' : other.endsLine with
        | true => exact .level (b := b) hprev rfl
        | false =>
          -- the first run asks for a line, so no token comes
          simp only [hends, if_true] at hrest hline
          have hkind := hitem.kind_of_endsLine_ne hc (by rw [hends, hends']; decide)
          have hall := hrest.feed_of_break hline rfl fun next hn hcom => hends ▸ hnext next hn hcom
          refine .ended ?_ rfl
          cases hwidens with
          | nil => rfl
          | cons hpq =>
            have hgap := hpq.feed_iff.mpr (hall _ rfl)
            rw [(hitem.rereads.endsLine hkind).mpr ⟨_, rfl, hgap⟩] at hends'
            cases hends'
      | false =>
        cases hends' : other.endsLine with
        | false => exact .level (b := b) hprev rfl
        | true =>
          have hkind := hitem.kind_of_endsLine_ne hc (by rw [hends, hends']; decide)
          refine .ahead (b := b) hprev s.nesting.depth rfl hbreak (fun next hn hcom => ?_)
            ((hitem.rereads.endsLine hkind).mp hends')
          rw [hnext next hn hcom, hends]

/-- Two runs that are side by side stay so. -/
theorem step (h : Abreast ctx s r (item :: items) (q :: qs)) (hplain : ctx.Plain)
    (hfeed : '\n' ∉ ctx.style.indent.toList) (hitem : item.Returned ctx s done qs p q other)
    (hfollows : ∀ next ∈ items.head?, item.Follows next)
    (hrest : Trace ctx (s.step ctx item) items ps) (hwidens : List.Forall₂ Widens ps qs) :
    Abreast ctx (s.step ctx item) (r.step ctx other) items qs := by
  cases hc : item.token.kind.isComment with
  | true => exact h.comment hplain hfeed hitem hc hfollows hrest hwidens
  | false => exact h.significant hitem hc

end State.Abreast

theorem Item.Placed.next {next : Item} (hfollows : item.Follows next)
    (hpaired : item.token.Paired ctx.dialect.lexicon) (hp : p.token = item.token) :
    next.Placed (done ++ [p]) := by
  refine ⟨by simp, ?_, ?_⟩
  · simpa [hp] using hfollows.apart
  · simpa [hp] using hpaired.opening

/-- **What was laid out is laid out again as it was**: over the items that are read back from its pieces, a
run writes the lines that it wrote. -/
theorem lines_reread (hplain : ctx.Plain) (hfeed : '\n' ∉ ctx.style.indent.toList)
    (ht : Trace ctx s items ps) (hs : Shows ctx s done) (hsound : ∀ item ∈ items, item.Sound ctx)
    (hpaired : ∀ item ∈ items, item.token.Paired ctx.dialect.lexicon)
    (hfirst : ∀ item ∈ items.head?, item.Fair ctx done ∧ item.Placed done)
    (hchain : items.IsChain Item.Follows) (hwidened : Widened (lastToken none done) ps qs)
    (hreread : Item.Reread (lastToken none done) qs others)
    (hfits : List.Forall₂ (Item.FitsAlike ctx) items others)
    (h : State.Abreast ctx s r items qs) :
    (r.run ctx others).page.lines = (s.run ctx items).page.lines := by
  induction ht generalizing done qs others r with
  | nil =>
    cases hwidened
    cases hreread
    exact h.lines_eq
  | @cons s item items p ps adds rest ih =>
    cases hwidened with
    | @cons _ _ q _ qs widens apart hwidened =>
      cases hreread with
      | @cons _ _ _ other others rereads hreread =>
        cases hfits with
        | cons fits hfits =>
          obtain ⟨hfair, hplaced⟩ := hfirst item rfl
          have hitem : item.Returned ctx s done qs p q other :=
            ⟨hs, hfair, hplaced, adds, widens, apart, rereads, fits⟩
          have hfollows : ∀ next ∈ items.head?, item.Follows next := fun next hn => hchain.rel_head? hn
          have hshows := hs.step hplain hfair adds
          have hstep := h.step hplain hfeed hitem hfollows rest hwidened.forall₂
          have hlast : lastToken none (done ++ [p]) = some p.token := lastToken_concat _ _
          rw [widens.token] at hreread
          rw [← hlast] at hwidened hreread
          change ((r.step ctx other).run ctx others).page.lines =
            ((s.step ctx item).run ctx items).page.lines
          refine ih hshows (fun i hi => hsound i (List.mem_cons_of_mem _ hi))
            (fun i hi => hpaired i (List.mem_cons_of_mem _ hi)) (fun next hn => ?_) hchain.tail hwidened
            hreread hfits hstep
          have hnext := hsound next (List.mem_cons_of_mem _ (List.mem_of_mem_head? hn))
          exact ⟨hshows.fair_next adds.token (hsound item (by simp)) hnext (hfollows next hn),
            .next (hfollows next hn) (hpaired item (by simp)) adds.token⟩

end SqlFormat.Layout

import Mathlib
import SqlFormat.Proofs.Layout.Decision
import SqlFormat.Proofs.Layout.Page

/-!
# What layout writes

The page of a run is spelt out from the tokens: every token adds one piece, its blanks and its
writing, and the rules for pieces hold whatever the nesting. Trimming the page at its end takes
white space from the last token only.

Results: `shows_step` (one token), `shows_run` (all of them), `spelt_of_shows`.
-/

namespace SqlFormat

open Text Lexer

/-- Pieces of which each may follow the one before. -/
inductive Chained (dialect : Dialect) : Option Token → List Piece → Prop
  | nil {before : Option Token} : Chained dialect before []
  | cons {before : Option Token} {p : Piece} {ps : List Piece}
      (joins : Joins dialect before p.gap p.token) (rest : Chained dialect (some p.token) ps) :
      Chained dialect before (p :: ps)

/-- The token that the next piece would follow. -/
def lastToken (before : Option Token) (ps : List Piece) : Option Token :=
  (ps.getLast?.map (·.token)).or before

variable {dialect : Dialect} {before : Option Token} {ps : List Piece} {p : Piece}

@[simp] theorem lastToken_nil : lastToken before [] = before := rfl

theorem lastToken_cons (p : Piece) (ps : List Piece) :
    lastToken before (p :: ps) = lastToken (some p.token) ps := by
  cases ps with
  | nil => rfl
  | cons q qs =>
    rw [lastToken, lastToken, List.getLast?_cons_cons]
    cases h : (q :: qs).getLast? with
    | none => simp at h
    | some r => rfl

@[simp] theorem lastToken_concat (ps : List Piece) (p : Piece) :
    lastToken before (ps ++ [p]) = some p.token := by
  simp [lastToken]

theorem Chained.concat (h : Chained dialect before ps)
    (hj : Joins dialect (lastToken before ps) p.gap p.token) : Chained dialect before (ps ++ [p]) := by
  induction h with
  | nil => exact .cons hj .nil
  | cons joins _ ih =>
    rw [lastToken_cons] at hj
    exact .cons joins (ih hj)

theorem spell_append (ps qs : List Piece) (tail : List Char) :
    spell (ps ++ qs) tail = spell ps (spell qs tail) := by
  induction ps with
  | nil => rfl
  | cons p ps ih => rw [List.cons_append, spell, spell, ih]

theorem spell_tail (ps : List Piece) (tail : List Char) : spell ps tail = spell ps [] ++ tail := by
  induction ps with
  | nil => rfl
  | cons p ps ih => rw [spell, spell, ih, List.append_assoc, List.append_assoc]

theorem spell_concat (ps : List Piece) (p : Piece) :
    spell (ps ++ [p]) [] = spell ps [] ++ (p.gap ++ p.text) := by
  rw [spell_append, spell_tail, spell, spell, List.append_nil]

end SqlFormat

namespace SqlFormat.Layout

open Text

/-- A text that is written as it is, and a style that writes blanks for margins. -/
structure Context.Plain (ctx : Context) : Prop where
  decorate : ∀ kind text, ctx.decorate kind text = text
  indent : ∀ c ∈ ctx.style.indent.toList, isBlank c = true

variable {ctx : Context} {s : State} {ps : List Piece} {item : Item}

/-- The page shows the pieces, and the state knows the last of them. -/
structure Shows (ctx : Context) (s : State) (ps : List Piece) : Prop where
  chars : s.page.chars ctx.style.indent = spell ps []
  chain : Chained ctx.dialect none ps
  written : ∀ p ∈ ps, Written ctx.keywordCase false p.token p.text ∧ p.text ≠ []
  start : ps = [] → s = .start
  ends : ∀ p ∈ ps.getLast?, s.page.Ends p.text
  prev : ∀ p ∈ ps.getLast?, p.token.kind.isComment = false → s.prev = some p.token
  unary : s.unary = true → ∃ a, s.prev = some a ∧ (a.isOperator "+" = true ∨ a.isOperator "-" = true)
  lineEnd : ∀ p ∈ ps.getLast?, p.token.kind = .lineComment → s.page.breakAt.isSome = true

theorem shows_start (ctx : Context) : Shows ctx .start [] where
  chars := rfl
  chain := .nil
  written := by simp
  start _ := rfl
  ends := by simp
  prev := by simp
  unary := by simp [State.start]
  lineEnd := by simp

/-- What layout asks of a token. -/
structure Item.Fair (ctx : Context) (ps : List Piece) (item : Item) : Prop where
  regular : item.token.Regular ctx.dialect
  kind : item.token.kind ≠ .whitespace
  /-- A comment after a line comment stood first on its line. -/
  startsLine : item.token.kind.isComment = true →
    ∀ p ∈ ps.getLast?, p.token.kind = .lineComment → item.startsLine = true
  endsLine : item.token.kind = .lineComment → item.endsLine = true
  /-- Only the last token may end with white space. -/
  trimmed : ∀ p ∈ ps.getLast?, Trimmed p.text

/-! ## One token -/

/-- Where no space belongs, the two tokens may touch. -/
theorem tight_of_spaced {a : Token} (h : s.spaced ctx a item = false)
    (hunary : s.unary = true → a.isOperator "+" = true ∨ a.isOperator "-" = true) :
    Tight ctx.dialect a item.token := by
  simp only [State.spaced] at h
  split_ifs at h with hu hopen hclose hbefore hafter hgroup harray hop
  · exact .sign (hunary hu)
  · simp only [Bool.and_eq_true, Bool.or_eq_true, beq_iff_eq] at hopen
    exact .opening hopen.1 hopen.2
  · simp only [Bool.and_eq_true, Bool.or_eq_true, beq_iff_eq] at hclose
    exact .closing hclose.1 hclose.2
  · simp only [Bool.and_eq_true, Bool.not_eq_true', beq_iff_eq] at hbefore
    exact .before hbefore.1 hbefore.2
  · simp only [Bool.and_eq_true, Bool.not_eq_true', beq_iff_eq] at hafter
    exact .after hafter.1 hafter.2
  · exact .group (by simpa using hop) hgroup

theorem blank_margin (hplain : ctx.Plain) (indent : Nat) :
    ∀ c ∈ margin ctx.style.indent indent, isBlank c = true := by
  intro c hc
  rw [margin, String.toList_join, List.mem_flatMap] at hc
  obtain ⟨text, htext, hc⟩ := hc
  rw [List.eq_of_mem_replicate htext] at hc
  exact hplain.indent c hc

theorem blank_gap (hplain : ctx.Plain) (page : Page) (space : Bool) :
    ∀ c ∈ page.gap ctx.style.indent space, isBlank c = true := by
  intro c hc
  unfold Page.gap at hc
  split at hc
  · rcases List.mem_append.mp hc with h | h
    · split at h
      · cases h
      · rw [List.eq_of_mem_replicate h]
        decide
    · exact blank_margin hplain _ c h
  · split at hc
    · obtain rfl := List.mem_singleton.mp hc
      decide
    · cases hc

/-- A line is started with a line feed, unless nothing has been written. -/
theorem head_gap {page : Page} (hline : page.line.text ≠ "") (hb : page.breakAt.isSome = true)
    (unit : String) (space : Bool) : (page.gap unit space).head? = some '\n' := by
  obtain ⟨indent, hi⟩ := Option.isSome_iff_exists.mp hb
  simp only [Page.gap, hi]
  rw [if_neg (by simpa using hline)]
  rfl

/-- On a line that has been started, blanks are missing only where no space is wanted. -/
theorem eq_false_of_gap {page : Page} (hline : page.line.text ≠ "") {unit : String} {space : Bool}
    (h : page.gap unit space = []) : page.breakAt = none ∧ space = false := by
  unfold Page.gap at h
  split at h
  · rw [if_neg (by simpa using hline)] at h
    simp at h
  · next hb =>
    refine ⟨hb, ?_⟩
    cases space with
    | false => rfl
    | true => simp [hline] at h

theorem State.Placed.chars {s₁ : State} (h : State.Placed s s₁) (unit : String) :
    s₁.page.chars unit = s.page.chars unit := by
  rcases h.page with h | ⟨n, h⟩
  · rw [h]
  · rw [h]
    rfl

theorem State.Placed.line {s₁ : State} (h : State.Placed s s₁) :
    s₁.page.line = s.page.line ∧ s₁.page.done = s.page.done := by
  rcases h.page with h | ⟨n, h⟩ <;> rw [h] <;> exact ⟨rfl, rfl⟩

theorem State.Placed.breakAt {s₁ : State} (h : State.Placed s s₁) (hb : s.page.breakAt.isSome = true) :
    s₁.page.breakAt.isSome = true := by
  rcases h.page with h | ⟨n, h⟩ <;> rw [h]
  · exact hb
  · rfl

/-- The line holds what was written last. -/
theorem Shows.line_ne (h : Shows ctx s ps) (hne : ps ≠ []) : s.page.line.text ≠ "" := by
  obtain ⟨p, hp⟩ := List.getLast?_isSome.mpr hne |> Option.isSome_iff_exists.mp
  exact (h.ends p hp).line

theorem Shows.started (h : Shows ctx s ps) : s.page.Started := by
  intro habs
  have : ps = [] := by
    by_contra hne
    exact h.line_ne hne habs
  rw [h.start this]
  exact ⟨rfl, rfl⟩

theorem Shows.neat (h : Shows ctx s ps) : s.page.Neat := by
  by_cases hne : ps = []
  · rw [h.start hne]
    intro line hline
    cases hline
  · obtain ⟨p, hp⟩ := List.getLast?_isSome.mpr hne |> Option.isSome_iff_exists.mp
    exact (h.ends p hp).neat

/-- The line may be finished: it ends with no white space. -/
theorem Shows.line_trimmed (h : Shows ctx s ps) (ht : ∀ p ∈ ps.getLast?, Trimmed p.text) :
    s.page.line.text = "" ∨ Trimmed s.page.line.text.toList := by
  by_cases hne : ps = []
  · rw [h.start hne]
    exact .inl rfl
  · obtain ⟨p, hp⟩ := List.getLast?_isSome.mpr hne |> Option.isSome_iff_exists.mp
    obtain ⟨rest, hrest⟩ := (h.ends p hp).suffix
    right
    rw [← hrest]
    exact dropWhileEnd_append (ht p hp) (h.written p (List.mem_of_getLast? hp)).2

/-- The characters of a page do not depend on its anchors, nor on the lines to come. -/
theorem Page.chars_congr {page page' : Page} (hd : page'.done = page.done)
    (ht : page'.line.text = page.line.text) (hi : page'.line.indent = page.line.indent)
    (unit : String) : page'.chars unit = page.chars unit := by
  simp only [Page.chars, Line.chars, hd, ht, hi]

theorem Page.Ends.congr {page page' : Page} {x : List Char} (h : page.Ends x)
    (hd : page'.done = page.done) (ht : page'.line.text = page.line.text) : page'.Ends x := by
  refine ⟨ht ▸ h.suffix, ht ▸ h.line, ?_⟩
  intro line hline
  exact h.neat line (hd ▸ hline)

theorem written_displayText (ctx : Context) {token : Token} (hc : token.kind.isComment = false) :
    Written ctx.keywordCase false token (State.displayText ctx token).toList := by
  unfold State.displayText
  split
  · next hk => exact .keyword hk
  · next hk => exact .same hc (by simpa using hk)

/-- The piece that a token adds when it is written from a state. -/
def State.piece (ctx : Context) (s : State) (item : Item) : Piece where
  gap := s.page.gap ctx.style.indent (s.spaceBefore ctx item)
  token := item.token
  text := (State.displayText ctx item.token).toList

/-- A token may follow what the page shows, with the blanks that layout puts before it. -/
theorem Shows.joins (h : Shows ctx s ps) (hplain : ctx.Plain) {s₁ : State} (hp : State.Placed s s₁)
    (hc : item.token.kind.isComment = false) :
    Joins ctx.dialect (lastToken none ps) (s₁.piece ctx item).gap item.token where
  blank := blank_gap hplain _ _
  lineEnd a ha hk := by
    obtain ⟨p, hlast, rfl⟩ : ∃ p, p ∈ ps.getLast? ∧ p.token = a := by
      simpa [lastToken] using ha
    have hne : ps ≠ [] := by
      rintro rfl
      cases hlast
    exact head_gap (hp.line.1 ▸ h.line_ne hne) (hp.breakAt (h.lineEnd p hlast hk)) _ _
  touch hgap a ha := by
    obtain ⟨p, hlast, rfl⟩ : ∃ p, p ∈ ps.getLast? ∧ p.token = a := by
      simpa [lastToken] using ha
    have hne : ps ≠ [] := by
      rintro rfl
      cases hlast
    obtain ⟨hbreak, hspace⟩ := eq_false_of_gap (hp.line.1 ▸ h.line_ne hne) hgap
    cases hcom : p.token.kind.isComment with
    | true =>
      -- A line comment would have had the line started.
      left
      cases hk : p.token.kind with
      | lineComment =>
        have := hp.breakAt (h.lineEnd p hlast hk)
        rw [hbreak] at this
        cases this
      | blockComment => rfl
      | _ => rw [hk] at hcom; cases hcom
    | false =>
      right
      have hprev := h.prev p hlast hcom
      simp only [State.spaceBefore, hp.prev, hprev, Bool.or_eq_false_iff] at hspace
      refine ⟨rfl, hc, tight_of_spaced hspace.1 fun hu => ?_, hspace.2⟩
      obtain ⟨a, ha, hsign⟩ := h.unary (hp.unary ▸ hu)
      rw [hprev, Option.some.injEq] at ha
      exact ha ▸ hsign

/-- The page shows one piece more. -/
theorem Shows.add (h : Shows ctx s ps) {p : Piece} {s' : State}
    (chars : s'.page.chars ctx.style.indent = s.page.chars ctx.style.indent ++ (p.gap ++ p.text))
    (joins : Joins ctx.dialect (lastToken none ps) p.gap p.token)
    (written : Written ctx.keywordCase false p.token p.text ∧ p.text ≠ [])
    (ends : s'.page.Ends p.text)
    (prev : p.token.kind.isComment = false → s'.prev = some p.token)
    (unary : s'.unary = true →
      ∃ a, s'.prev = some a ∧ (a.isOperator "+" = true ∨ a.isOperator "-" = true))
    (lineEnd : p.token.kind = .lineComment → s'.page.breakAt.isSome = true) :
    Shows ctx s' (ps ++ [p]) where
  chars := by rw [chars, h.chars, spell_concat]
  chain := h.chain.concat joins
  written q hq := by
    rcases List.mem_append.mp hq with hq | hq
    · exact h.written q hq
    · exact List.mem_singleton.mp hq ▸ written
  start := by simp
  ends := by simpa using ends
  prev := by simpa using prev
  unary := unary
  lineEnd := by simpa using lineEnd

/-- A token other than a comment adds a piece. -/
theorem Shows.significant (h : Shows ctx s ps) (hplain : ctx.Plain) (hf : item.Fair ctx ps)
    (hc : item.token.kind.isComment = false) {s₁ s₂ : State} (hp : State.Placed s s₁)
    (hs : State.Settled (s₁.emit ctx item) s₂) :
    Shows ctx { s₂ with prev := some item.token } (ps ++ [s₁.piece ctx item]) := by
  have hwritten := written_displayText ctx hc
  have hne := hwritten.ne_nil hf.regular hf.kind
  have hne' : State.displayText ctx item.token ≠ "" := by
    intro habs
    rw [habs] at hne
    exact hne rfl
  -- Up to anchors and the lines to come, the page is the one of the three moves.
  set page := (s₁.page.advance (s₁.spaceBefore ctx item)).write
    (State.displayText ctx item.token) (State.lastLineWidth (State.displayText ctx item.token))
    with hpage
  obtain ⟨hdone, htext, hindent⟩ : s₂.page.done = page.done ∧ s₂.page.line.text = page.line.text ∧
      s₂.page.line.indent = page.line.indent := by
    obtain ⟨anchors, hemit⟩ := State.emit_page ctx s₁ item
    rw [hplain.decorate] at hemit
    rcases hs.page with h | ⟨_, _, h⟩ <;> rw [h, hemit] <;> exact ⟨rfl, rfl, rfl⟩
  have hstarted : s₁.page.Started := by
    intro habs
    rw [hp.line.1] at habs ⊢
    rw [hp.line.2]
    exact h.started habs
  have hneat : s₁.page.Neat := by
    intro line hline
    rw [hp.line.2] at hline
    exact h.neat line hline
  have htrimmed : s₁.page.line.text = "" ∨ Trimmed s₁.page.line.text.toList := by
    rw [hp.line.1]
    exact h.line_trimmed hf.trimmed
  have hends : s₂.page.Ends (State.displayText ctx item.token).toList :=
    (Page.ends_write (Page.neat_advance hneat htrimmed _) hne' _).congr hdone htext
  refine h.add (p := s₁.piece ctx item) ?_ (h.joins hplain hp hc) ⟨hwritten, hne⟩ hends
    (fun _ => rfl) (fun hu => ?_) fun hk => ?_
  · rw [Page.chars_congr hdone htext hindent, hpage, Page.chars_write hstarted _ hne', hp.chars]
    rfl
  · have hsign : s₁.isUnarySign item.token = true := hs.unary.symm.trans hu
    simp only [State.isUnarySign, Bool.and_eq_true, Bool.or_eq_true] at hsign
    exact ⟨item.token, rfl, hsign.1⟩
  · change item.token.kind = .lineComment at hk
    rw [hk] at hc
    cases hc

/-! ### Comments -/

/-- The piece that a comment adds. -/
def State.commentPiece (ctx : Context) (s : State) (item : Item) : Piece where
  gap := if s.attaches item then [' '] else (s.broken item).page.gap ctx.style.indent true
  token := item.token
  text := (State.commentText ctx item.token (s.commentPage item).line.indent).toList

theorem written_commentText (hplain : ctx.Plain) {token : Token} (hc : token.kind.isComment = true)
    (indent : Nat) :
    Written ctx.keywordCase false token (State.commentText ctx token indent).toList := by
  unfold State.commentText
  split
  · next hk =>
    rw [trimEnd, String.toList_ofList]
    exact .lineComment (by simpa using hk)
  · next hk =>
    have hblock : token.kind = .blockComment := by
      cases h : token.kind <;> rw [h] at hc hk <;> first | rfl | exact absurd rfl hk | cases hc
    split
    · exact .blockComment hblock (.refl _)
    · exact .blockComment hblock
        (reflow_reindent (fun c hc => isBlank_imp_isWhite (hplain.indent c hc)) indent _)

/-- A comment may follow what the page shows, with the blanks that layout puts before it. -/
theorem Shows.joins_comment (h : Shows ctx s ps) (hplain : ctx.Plain) (hf : item.Fair ctx ps)
    (hc : item.token.kind.isComment = true) :
    Joins ctx.dialect (lastToken none ps) (s.commentPiece ctx item).gap item.token := by
  have hlast : ∀ a ∈ lastToken none ps, ∃ p, p ∈ ps.getLast? ∧ p.token = a ∧
      s.page.line.text ≠ "" := by
    intro a ha
    obtain ⟨p, hp, rfl⟩ : ∃ p, p ∈ ps.getLast? ∧ p.token = a := by simpa [lastToken] using ha
    exact ⟨p, hp, rfl, (h.ends p hp).line⟩
  have hbroken : (s.broken item).page.line = s.page.line := by
    unfold State.broken
    split <;> rfl
  simp only [State.commentPiece]
  split
  · next ha =>
    refine ⟨by simp [isBlank], fun a hmem hk => ?_, fun h => by cases h⟩
    obtain ⟨p, hp, rfl, _⟩ := hlast a hmem
    simp [State.attaches, hf.startsLine hc p hp hk] at ha
  · refine ⟨blank_gap hplain _ _, fun a hmem hk => ?_, fun hgap a hmem => ?_⟩
    · obtain ⟨p, hp, rfl, hline⟩ := hlast a hmem
      refine head_gap (hbroken ▸ hline) ?_ _ _
      have hb := h.lineEnd p hp hk
      unfold State.broken
      split
      · rfl
      · exact hb
    · obtain ⟨p, hp, rfl, hline⟩ := hlast a hmem
      cases (eq_false_of_gap (hbroken ▸ hline) hgap).2

/-- A comment adds a piece. -/
theorem Shows.comment (h : Shows ctx s ps) (hplain : ctx.Plain) (hf : item.Fair ctx ps)
    (hc : item.token.kind.isComment = true) :
    Shows ctx (s.comment ctx item) (ps ++ [s.commentPiece ctx item]) := by
  have hwritten := written_commentText hplain hc (s.commentPage item).line.indent
  have hne := hwritten.ne_nil hf.regular hf.kind
  have hne' : State.commentText ctx item.token (s.commentPage item).line.indent ≠ "" := by
    intro habs
    rw [habs] at hne
    exact hne rfl
  have hbroken : (s.broken item).page.line = s.page.line ∧ (s.broken item).page.done = s.page.done ∧
      (s.broken item).page.chars ctx.style.indent = s.page.chars ctx.style.indent := by
    unfold State.broken
    split <;> exact ⟨rfl, rfl, rfl⟩
  have hpage : (s.commentPage item).Neat ∧ (s.commentWritten ctx item).chars ctx.style.indent =
      s.page.chars ctx.style.indent ++
        ((s.commentPiece ctx item).gap ++ (s.commentPiece ctx item).text) := by
    simp only [State.commentWritten, hplain.decorate, State.commentPiece]
    by_cases ha : s.attaches item = true
    · have hline : s.page.line.text ≠ "" := by
        simp only [State.attaches, Bool.and_eq_true, Bool.not_eq_true'] at ha
        simpa using ha.2
      have hspace : s.commentPage item = s.page.write " " 1 := if_pos ha
      have hstarted : (s.page.write " " 1).Started :=
        (Page.ends_write h.neat (by decide : " " ≠ "") 1).started
      rw [hspace] at hne' ⊢
      refine ⟨h.neat, ?_⟩
      rw [Page.chars_write_line hstarted _ hne', Page.chars_write_line h.started _ (by decide),
        if_pos ha, List.append_assoc]
      rfl
    · have hspace : s.commentPage item = (s.broken item).page.advance true := if_neg ha
      have hstarted : (s.broken item).page.Started := by
        intro habs
        rw [hbroken.1] at habs ⊢
        rw [hbroken.2.1]
        exact h.started habs
      have hneat : (s.broken item).page.Neat := by
        intro line hline
        rw [hbroken.2.1] at hline
        exact h.neat line hline
      rw [hspace] at hne' ⊢
      refine ⟨Page.neat_advance hneat (hbroken.1 ▸ h.line_trimmed hf.trimmed) true, ?_⟩
      rw [Page.chars_write hstarted _ hne', hbroken.2.2, if_neg ha]
  have hends : (s.commentWritten ctx item).Ends (s.commentPiece ctx item).text := by
    simp only [State.commentWritten, hplain.decorate]
    exact Page.ends_write hpage.1 hne' _
  rw [State.comment_eq]
  refine h.add ?_ (h.joins_comment hplain hf hc) ⟨hwritten, hne⟩ ?_ (fun hcom => ?_) h.unary fun hk => ?_
  · rw [← hpage.2]
    exact Page.chars_congr (by split <;> rfl) (by split <;> rfl) (by split <;> rfl) _
  · exact hends.congr (by split <;> rfl) (by split <;> rfl)
  · change item.token.kind.isComment = false at hcom
    rw [hc] at hcom
    cases hcom
  · rw [hf.endsLine hk, Bool.true_and]
    cases hb : (s.commentWritten ctx item).breakAt with
    | none => rfl
    | some indent => simp [hb]

/-! ## All tokens -/

/-- What a step adds to the page. -/
inductive Adds (ctx : Context) (s : State) (item : Item) : Piece → Prop
  | comment (hc : item.token.kind.isComment = true) : Adds ctx s item (s.commentPiece ctx item)
  | significant (hc : item.token.kind.isComment = false) :
      Adds ctx s item ((s.placed ctx item).piece ctx item)

/-- The pieces that a run adds. -/
inductive Trace (ctx : Context) : State → List Item → List Piece → Prop
  | nil (s : State) : Trace ctx s [] []
  | cons {s : State} {item : Item} {items : List Item} {p : Piece} {ps : List Piece}
      (adds : Adds ctx s item p) (rest : Trace ctx (s.step ctx item) items ps) :
      Trace ctx s (item :: items) (p :: ps)

theorem exists_adds (ctx : Context) (s : State) (item : Item) : ∃ p, Adds ctx s item p := by
  cases hc : item.token.kind.isComment with
  | true => exact ⟨_, .comment hc⟩
  | false => exact ⟨_, .significant hc⟩

theorem exists_trace (ctx : Context) (s : State) (items : List Item) :
    ∃ ps, Trace ctx s items ps := by
  induction items generalizing s with
  | nil => exact ⟨[], .nil s⟩
  | cons item items ih =>
    obtain ⟨p, hp⟩ := exists_adds ctx s item
    obtain ⟨ps, hps⟩ := ih (s.step ctx item)
    exact ⟨p :: ps, .cons hp hps⟩

theorem Adds.token {p : Piece} (h : Adds ctx s item p) : p.token = item.token := by
  cases h <;> rfl

theorem Trace.tokens {items : List Item} (h : Trace ctx s items ps) :
    ps.map (·.token) = items.map (·.token) := by
  induction h with
  | nil => rfl
  | cons adds _ ih => rw [List.map_cons, List.map_cons, ih, adds.token]

/-- A step shows the piece that it adds. -/
theorem Shows.step (h : Shows ctx s ps) (hplain : ctx.Plain) (hf : item.Fair ctx ps) {p : Piece}
    (hadds : Adds ctx s item p) : Shows ctx (s.step ctx item) (ps ++ [p]) := by
  unfold State.step
  cases hadds with
  | comment hc =>
    rw [if_pos hc]
    exact h.comment hplain hf hc
  | significant hc =>
    rw [if_neg (by simp [hc])]
    exact h.significant hplain hf hc (s.placed_placed ctx item) (s.settled_significant ctx item)

/-- What holds of each item of a text. -/
structure Item.Sound (ctx : Context) (item : Item) : Prop where
  regular : item.token.Regular ctx.dialect
  kind : item.token.kind ≠ .whitespace
  endsLine : item.token.kind = .lineComment → item.endsLine = true

/-- What holds of two items of a text of which the second follows the first. -/
structure Item.Follows (first second : Item) : Prop where
  /-- Of two comments, the second starts a line if the first ends one. -/
  startsLine : first.token.kind.isComment = true → second.token.kind.isComment = true →
    second.startsLine = first.endsLine
  /-- A bracket behind a comment stands apart. -/
  apart : first.token.kind.isComment = true → isOpeningBracket second.token = true →
    second.apart = true
  tidy : first.token.kind ≠ .lineComment → Tidy first.token.text.toList

/-- A token that ends with no blank is written so, and a line comment always is. -/
theorem trimmed_of_written {case : KeywordCase} {dialect : Dialect} {token : Token} {x : List Char}
    (h : Written case false token x) (hr : token.Regular dialect)
    (htidy : token.kind ≠ .lineComment → Tidy token.text.toList) : Trimmed x := by
  have hlast : token.kind ≠ .lineComment → ∃ c, token.text.toList.getLast? = some c ∧
      isWhite c = false := by
    intro hk
    obtain ⟨c, hc, hb⟩ := htidy hk
    refine ⟨c, hc, ?_⟩
    rw [Bool.eq_false_iff]
    intro hw
    rw [hr.white c hc hw] at hb
    cases hb
  cases h with
  | lineComment => exact dropWhileEnd_idem _
  | blockComment hk hx =>
    obtain ⟨c, hc, hw⟩ := hlast (by rw [hk]; decide)
    exact trimmed_of_getLast? (hx.getLast? hc hw) hw
  | keyword hk =>
    have hx := respaced_keyword hr.toSound hk case
    obtain ⟨_, ws, _, hphrase, _⟩ := hx.phrased
    obtain ⟨c, hc, hb⟩ := hphrase.tidy
    refine trimmed_of_getLast? hc ?_
    rcases hx.chars c (List.mem_of_getLast? hc) with h | h
    · exact Lexer.not_isWhite_of_isKeywordChar h
    · rw [hb] at h
      cases h
  | same hc hk =>
    have hk : token.kind ≠ .lineComment := by
      intro h
      rw [h] at hc
      cases hc
    obtain ⟨c, hc, hw⟩ := hlast hk
    exact trimmed_of_getLast? hc hw
  | trimmed h => cases h

/-- The token after one that the page shows is as layout asks for. -/
theorem Shows.fair_next {next : Item} {p : Piece} (h : Shows ctx s (ps ++ [p]))
    (hp : p.token = item.token) (hs : item.Sound ctx) (hn : next.Sound ctx) (hf : item.Follows next) :
    next.Fair ctx (ps ++ [p]) := by
  refine ⟨hn.regular, hn.kind, ?_, hn.endsLine, ?_⟩
  · simp only [List.getLast?_concat, Option.mem_some_iff, forall_eq', hp]
    intro hc hk
    rw [hf.startsLine (by rw [hk]; rfl) hc, hs.endsLine hk]
  · have hw := (h.written p (by simp)).1
    rw [hp] at hw
    simpa using trimmed_of_written hw hs.regular hf.tidy

/-- A run shows the pieces that it adds. -/
theorem Trace.shows (hplain : ctx.Plain) {items : List Item} {qs : List Piece}
    (ht : Trace ctx s items qs) (h : Shows ctx s ps) (hsound : ∀ item ∈ items, item.Sound ctx)
    (hfirst : ∀ item ∈ items.head?, item.Fair ctx ps)
    (hchain : items.IsChain Item.Follows) : Shows ctx (s.run ctx items) (ps ++ qs) := by
  induction ht generalizing ps with
  | nil => simpa [State.run] using h
  | @cons s item items p qs adds rest ih =>
    have hs := hsound item (by simp)
    have hstep := h.step hplain (hfirst item rfl) adds
    have := ih hstep (fun item hi => hsound item (List.mem_cons_of_mem _ hi)) ?_ hchain.tail
    · rwa [List.append_assoc] at this
    · intro next hnext
      have hn := hsound next (List.mem_cons_of_mem _ (List.mem_of_mem_head? hnext))
      exact hstep.fair_next adds.token hs hn (hchain.rel_head? hnext)

/-! ## The end of the page -/

/-- The pieces with the last one trimmed. -/
def trimLast : List Piece → List Piece
  | [] => []
  | [p] => [{ p with text := dropWhileEnd isWhite p.text }]
  | p :: q :: ps => p :: trimLast (q :: ps)

theorem map_token_trimLast (ps : List Piece) :
    (trimLast ps).map (·.token) = ps.map (·.token) := by
  fun_induction trimLast ps with
  | case1 => rfl
  | case2 => rfl
  | case3 p q ps ih => rw [List.map_cons, ih]; rfl

/-- What layout relies on in the pieces. -/
structure GoodPiece (ctx : Context) (p : Piece) : Prop where
  regular : p.token.Regular ctx.dialect
  kind : p.token.kind ≠ .whitespace
  written : Written ctx.keywordCase false p.token p.text
  /-- Only a literal or a comment may end with a blank. -/
  tidy : p.token.kind ≠ .lineComment → Lexer.canBeOpen p.token.kind = false →
    Tidy p.token.text.toList

/-- The last token may be trimmed: only an open literal loses anything. -/
theorem GoodPiece.trim {p : Piece} (h : GoodPiece ctx p) :
    Written ctx.keywordCase true p.token (dropWhileEnd isWhite p.text) := by
  obtain ⟨regular, kind, written, tidy⟩ := h
  have hsame : (p.token.kind ≠ .lineComment → Tidy p.token.text.toList) →
      dropWhileEnd isWhite p.text = p.text := fun htidy => trimmed_of_written written regular htidy
  generalize p.text = x at *
  cases written with
  | lineComment hk =>
    rw [dropWhileEnd_idem]
    exact .lineComment hk
  | blockComment hk hx => exact .blockComment hk hx.trim
  | keyword hk =>
    have hopen : Lexer.canBeOpen p.token.kind = false := by
      have hkind : ∀ kind : TokenKind, kind.isReserved = true ∨ kind = .openParen ∨
          kind = .closeParen → Lexer.canBeOpen kind = false := by
        intro kind
        cases kind <;> decide
      refine hkind _ ?_
      simp only [Token.isKeyword, Bool.or_eq_true, Bool.and_eq_true, beq_iff_eq] at hk
      tauto
    rw [hsame fun hl => tidy hl hopen]
    exact .keyword hk
  | same hc hk =>
    by_cases hlit : p.token.kind = .string ∨ p.token.kind = .namedPlaceholder
    · exact .trimmed rfl hlit
    · have hopen : Lexer.canBeOpen p.token.kind = false := by
        rw [not_or] at hlit
        have hblock : p.token.kind ≠ .blockComment := by
          intro h
          rw [h] at hc
          cases hc
        simp [Lexer.canBeOpen, hlit, hblock]
      rw [hsame fun hl => tidy hl hopen]
      exact .same hc hk
  | trimmed h => cases h

theorem GoodPiece.trim_ne_nil {p : Piece} (h : GoodPiece ctx p) : dropWhileEnd isWhite p.text ≠ [] :=
  h.trim.ne_nil h.regular h.kind

theorem spell_trimLast_ne_nil {p : Piece} (h : GoodPiece ctx p) :
    spell (trimLast (p :: ps)) [] ≠ [] := by
  cases ps with
  | nil => simp [trimLast, spell, h.trim_ne_nil]
  | cons q qs => simp [trimLast, spell, h.written.ne_nil h.regular h.kind]

/-- The text of the page, trimmed, is that of the pieces with the last one trimmed. -/
theorem spell_trimLast (h : ∀ p ∈ ps, GoodPiece ctx p) :
    spell (trimLast ps) [] = dropWhileEnd isWhite (spell ps []) := by
  fun_induction trimLast ps with
  | case1 => rfl
  | case2 p =>
    simp only [spell, List.append_nil]
    exact (dropWhileEnd_append_of_ne (h p (by simp)).trim_ne_nil).symm
  | case3 p q ps ih =>
    have ih := ih fun r hr => h r (List.mem_cons_of_mem _ hr)
    have hne : dropWhileEnd isWhite (spell (q :: ps) []) ≠ [] := by
      rw [← ih]
      exact spell_trimLast_ne_nil (h q (by simp))
    rw [spell, spell, ih, ← List.append_assoc, ← List.append_assoc, dropWhileEnd_append_of_ne hne]

/-- The pieces with the last one trimmed follow the rules. -/
theorem spelt_trimLast {before : Option Token} (hchain : Chained ctx.dialect before ps)
    (h : ∀ p ∈ ps, GoodPiece ctx p) {tail : List Char} (blank : ∀ c ∈ tail, isBlank c = true)
    (hfeed : tail.head?.all (· == '\n') = true) :
    Spelt ctx.dialect ctx.keywordCase before (trimLast ps) tail := by
  induction hchain with
  | nil => exact .nil blank fun _ _ _ => hfeed
  | @cons before p ps joins rest ih =>
    have hp := h p (by simp)
    cases ps with
    | nil => exact .cons hp.regular hp.kind joins hp.trim (.nil blank fun _ _ _ => hfeed)
    | cons q qs =>
      refine .cons hp.regular hp.kind joins ?_ (ih fun r hr => h r (List.mem_cons_of_mem _ hr))
      have : (trimLast (q :: qs)).isEmpty = false := by
        cases qs <;> rfl
      rw [this]
      exact hp.written

end SqlFormat.Layout

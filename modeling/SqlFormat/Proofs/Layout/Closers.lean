import Mathlib
import SqlFormat.Proofs.Layout.Depth
import SqlFormat.Proofs.Layout.Innermost
import SqlFormat.Proofs.Layout.Openings

/-!
# Closers return to their openers

In well-nested tokens the frames are those of the openers that are open, one for each. A frame notes the
indentation of the line of its opener. A block that is not kept on one line is closed on a new line with
that indentation; a block on one line is closed on the line that it was opened on, because nothing in it
starts a line.

Results: `Tracks.step` (one token), `tracks_stateAt` (all of them), `closers_return`.
-/

namespace SqlFormat.Layout

open State (closerKey frameAt Decision)

variable {ctx : Context} {s : State} {item : Item} {items : List Item}

/-! ## The state before a token -/

/-- The state before the item with `k` items before it. -/
def stateAt (ctx : Context) (items : List Item) (k : Nat) : State :=
  State.start.run ctx (items.take k)

theorem stateAt_succ (ctx : Context) {k : Nat} (hk : items[k]? = some item) :
    stateAt ctx items (k + 1) = (stateAt ctx items k).step ctx item := by
  rw [stateAt, List.take_add_one, hk, State.run, List.foldl_append]
  rfl

/-! ## Frames and openers -/

/-- What the items have to be: tokens as the lexer reads them, and groups that are measured. -/
structure Item.Ready (ctx : Context) (items : List Item) : Prop where
  paired : ∀ item ∈ items, item.token.Paired ctx.dialect.lexicon
  opens : ∀ item ∈ items, item.token.Opens ctx.dialect.lexicon
  quiet : Item.Quiet items

theorem Item.Quiet.drop {items : List Item} (h : Item.Quiet items) (k : Nat) :
    Item.Quiet (items.drop k) := by
  induction k generalizing items with
  | zero => exact h
  | succ k ih =>
    cases items with
    | nil => exact h
    | cons item items => exact ih h.2

/-- The frame of an opener, above the frames that were there before it. -/
structure Holds (ctx : Context) (items : List Item) (o : Opening) (f : Frame) (below : List Frame) :
    Prop where
  key : f.key = o.key
  known : (ctx.dialect.lexicon.opener? o.key).isSome = true
  block : f.isProcedural = ctx.dialect.lexicon.opensBlock o.key
  before : (stateAt ctx items o.place).nesting.stack = below
  pushed : ∃ g, (stateAt ctx items (o.place + 1)).nesting.stack = g :: below ∧ g.Same f
  line : f.outer = (stateAt ctx items (o.place + 1)).page.line.indent

theorem Holds.same {o : Opening} {f g : Frame} {below : List Frame} (h : Holds ctx items o f below)
    (hsame : f.Same g) (hkey : g.key = f.key) : Holds ctx items o g below where
  key := hkey.trans h.key
  known := h.known
  block := by rw [Frame.isProcedural, hsame.context]; exact h.block
  before := h.before
  pushed := by
    obtain ⟨first, hstack, hfirst⟩ := h.pushed
    exact ⟨first, hstack, hfirst.trans hsame⟩
  line := hsame.outer.trans h.line

/-- The frames are those of the openers that are open. -/
def Matches (ctx : Context) (items : List Item) : List Opening → List Frame → Prop
  | [], [] => True
  | o :: outer, f :: below => Holds ctx items o f below ∧ Matches ctx items outer below
  | _, _ => False

variable {opened : List Opening} {k : Nat}

theorem Matches.length_eq {stack : List Frame} (h : Matches ctx items opened stack) :
    stack.length = opened.length := by
  induction opened generalizing stack with
  | nil =>
    cases stack with
    | nil => rfl
    | cons f below => cases h
  | cons o outer ih =>
    cases stack with
    | nil => cases h
    | cons f below => rw [List.length_cons, List.length_cons, ih h.2]

theorem Matches.exists_cons {o : Opening} {outer : List Opening} {stack : List Frame}
    (h : Matches ctx items (o :: outer) stack) :
    ∃ f below, stack = f :: below ∧ Holds ctx items o f below ∧ Matches ctx items outer below := by
  cases stack with
  | nil => cases h
  | cons f below => exact ⟨f, below, rfl, h.1, h.2⟩

namespace State.Levelled

variable {skipped : List String} {tokens : List Token} {t : Token}

/-- Blocks that are kept on one line are the innermost. -/
theorem blocks (h : s.Levelled skipped tokens) (hinline : s.nesting.inInline = false) :
    ∀ f ∈ s.nesting.stack, f.inline = false :=
  h.level.blocks hinline

/-- What has to start a line stands in no block that is kept on one line. -/
theorem not_inline (h : s.Levelled skipped (t :: tokens)) (hbreaks : t.breaksLine = true) :
    s.nesting.inInline = false := by
  obtain ⟨inner, outer, hstacked, -⟩ := h.level
  obtain rfl := hstacked.inner_of_breaksLine hbreaks
  exact hstacked.inInline_eq_false

end State.Levelled

/-- What holds before an item, where these openers are open. -/
structure Tracks (ctx : Context) (items : List Item) (k : Nat) (opened : List Opening) : Prop where
  frames : Matches ctx items opened (stateAt ctx items k).nesting.stack
  overflow : (stateAt ctx items k).nesting.overflow = 0
  levelled : (stateAt ctx items k).Levelled [] ((items.drop k).map (·.token))
  inline : ∀ f ∈ (stateAt ctx items k).nesting.stack, f.inline = true →
    f.outer = (stateAt ctx items k).page.indent

namespace Tracks

theorem start (ctx : Context) (items : List Item) : Tracks ctx items 0 [] where
  frames := trivial
  overflow := rfl
  levelled := State.Levelled.start _
  inline f hf := by cases hf

theorem sound (h : Tracks ctx items k opened) : (stateAt ctx items k).nesting.Sound :=
  h.levelled.sound

theorem drop_eq (hk : items[k]? = some item) : items.drop k = item :: items.drop (k + 1) := by
  obtain ⟨hlt, rfl⟩ := List.getElem?_eq_some_iff.mp hk
  exact List.drop_eq_getElem_cons hlt

/-- Where no opener is without a frame, lines are indented as the blocks allow. -/
theorem levelled_succ (h : Tracks ctx items k opened) (hready : Item.Ready ctx items)
    (hk : items[k]? = some item) (hover : (stateAt ctx items (k + 1)).nesting.overflow = 0) :
    (stateAt ctx items (k + 1)).Levelled [] ((items.drop (k + 1)).map (·.token)) := by
  have hmem := List.mem_of_getElem? hk
  have hquiet := hready.quiet.drop k
  have hlevelled := h.levelled
  rw [drop_eq hk] at hquiet hlevelled
  rw [stateAt_succ ctx hk] at hover ⊢
  have hstep := hlevelled.step ⟨hready.paired item hmem, hquiet.1⟩ fun _ _ _ hkey => by cases hkey
  rwa [skippedAfter_nil hover] at hstep

theorem not_inline (h : Tracks ctx items k opened) (hk : items[k]? = some item)
    (hbreaks : item.token.breaksLine = true) : (stateAt ctx items k).nesting.inInline = false := by
  have hlevelled := h.levelled
  rw [drop_eq hk] at hlevelled
  exact hlevelled.not_inline hbreaks

/-- A token that opens and closes nothing. -/
theorem goes (h : Tracks ctx items k opened) (hready : Item.Ready ctx items)
    (hk : items[k]? = some item)
    (hgoes : (stateAt ctx items k).nesting.Goes (stateAt ctx items (k + 1)).nesting)
    (hindent : (stateAt ctx items k).nesting.inInline = true →
      (stateAt ctx items (k + 1)).page.indent = (stateAt ctx items k).page.indent) :
    Tracks ctx items (k + 1) opened := by
  have hover : (stateAt ctx items (k + 1)).nesting.overflow = 0 := hgoes.overflow.trans h.overflow
  refine ⟨?_, hover, h.levelled_succ hready hk hover, ?_⟩
  · rcases hgoes.stack with heq | ⟨f, g, below, hstack, hstack', hsame, hkey⟩
    · rw [heq]
      exact h.frames
    · have hframes := h.frames
      rw [hstack] at hframes
      rw [hstack']
      cases opened with
      | nil => cases hframes
      | cons o outer => exact ⟨hframes.1.same hsame hkey, hframes.2⟩
  · -- either all blocks on one line have the indentation of that line, or there are none
    intro g hg hinline
    obtain ⟨f, hf, hinline', houter⟩ :
        ∃ f ∈ (stateAt ctx items k).nesting.stack, f.inline = true ∧ g.outer = f.outer := by
      rcases hgoes.stack with heq | ⟨f, g', below, hstack, hstack', hsame, -⟩
      · exact ⟨g, heq ▸ hg, hinline, rfl⟩
      · rw [hstack'] at hg
        rcases List.mem_cons.mp hg with rfl | hg
        · exact ⟨f, by simp [hstack], by rw [← hsame.inline, hinline], hsame.outer⟩
        · exact ⟨g, by simp [hstack, hg], hinline, rfl⟩
    have htop : (stateAt ctx items k).nesting.inInline = true := by
      by_contra hnot
      rw [h.levelled.blocks (by simpa using hnot) f hf] at hinline'
      cases hinline'
    rw [houter, hindent htop, h.inline f hf hinline']

/-- An opener that gets a frame. -/
theorem push (h : Tracks ctx items k opened) (hready : Item.Ready ctx items)
    (hk : items[k]? = some item) {f : Frame}
    (hnesting : (stateAt ctx items (k + 1)).nesting = (stateAt ctx items k).nesting.push f)
    (hkey : f.key = closerKey item.token)
    (hknown : (ctx.dialect.lexicon.opener? (closerKey item.token)).isSome = true)
    (hblock : f.isProcedural = ctx.dialect.lexicon.opensBlock (closerKey item.token))
    (hline : f.outer = (stateAt ctx items (k + 1)).page.line.indent)
    (hinline : f.inline = true → f.outer = (stateAt ctx items (k + 1)).page.indent ∧
      (stateAt ctx items (k + 1)).page.indent = (stateAt ctx items k).page.indent)
    (houter : f.inline = false → (stateAt ctx items k).nesting.inInline = false) :
    Tracks ctx items (k + 1) (⟨k, closerKey item.token⟩ :: opened) := by
  have hstack : (stateAt ctx items (k + 1)).nesting.stack =
      f :: (stateAt ctx items k).nesting.stack := by rw [hnesting]; rfl
  have hover : (stateAt ctx items (k + 1)).nesting.overflow = 0 := by rw [hnesting]; exact h.overflow
  refine ⟨?_, hover, h.levelled_succ hready hk hover, ?_⟩
  · rw [hstack]
    exact ⟨⟨hkey, hknown, hblock, rfl, ⟨f, hstack, .refl f⟩, hline⟩, h.frames⟩
  · intro g hg hg'
    rw [hstack] at hg
    rcases List.mem_cons.mp hg with rfl | hg
    · exact (hinline hg').1
    · cases hf : f.inline with
      | true => rw [h.inline g hg hg', (hinline hf).2]
      | false =>
        rw [h.levelled.blocks (houter hf) g hg] at hg'
        cases hg'

/-- A `BEGIN` that continues the block of a `DECLARE`. -/
theorem resume (hready : Item.Ready ctx items) (hk : items[k]? = some item) {o : Opening}
    {outer : List Opening} (h : Tracks ctx items k (o :: outer)) {f : Frame} {below : List Frame}
    (hstack : (stateAt ctx items k).nesting.stack = f :: below) (hf : f.isProcedural = true)
    {key : String} (hblock : ctx.dialect.lexicon.opensBlock key = true)
    (hnesting : (stateAt ctx items (k + 1)).nesting =
      (stateAt ctx items k).nesting.modifyTop fun f => { f with key := key, clause := none }) :
    Tracks ctx items (k + 1) (⟨o.place, key⟩ :: outer) := by
  have hstack' : (stateAt ctx items (k + 1)).nesting.stack =
      { f with key := key, clause := none } :: below := by
    rw [hnesting, Nesting.modifyTop_stack_cons hstack]
  have hover : (stateAt ctx items (k + 1)).nesting.overflow = 0 := by
    rw [hnesting, Nesting.modifyTop, hstack]
    exact h.overflow
  have hinline : f.inline = false :=
    State.not_inline_of_procedural (h.sound.frames f (by simp [hstack])) hf
  refine ⟨?_, hover, h.levelled_succ hready hk hover, ?_⟩
  · have hframes := h.frames
    rw [hstack] at hframes
    obtain ⟨hholds, hbelow⟩ := hframes
    obtain ⟨g, hpushed, hsame⟩ := hholds.pushed
    rw [hstack']
    refine ⟨⟨rfl, ?_, hf.trans hblock.symm, hholds.before, ⟨g, hpushed, ?_⟩, hholds.line⟩, hbelow⟩
    · cases hopener : ctx.dialect.lexicon.opener? key with
      | some opener => rfl
      | none =>
        rw [Lexicon.opensBlock, hopener] at hblock
        cases hblock
    · exact hsame.trans ⟨rfl, rfl, rfl, rfl⟩
  · -- a procedural block is in no block on one line
    have hnone : (stateAt ctx items k).nesting.inInline = false := by
      rw [Nesting.inInline, Nesting.top?, hstack]
      exact hinline
    intro g hg hg'
    rw [hstack'] at hg
    rcases List.mem_cons.mp hg with rfl | hg
    · exact absurd (hinline.symm.trans hg') (by simp)
    · rw [h.levelled.blocks hnone g (by simp [hstack, hg])] at hg'
      cases hg'

/-- A closer. -/
theorem pop (hready : Item.Ready ctx items) (hk : items[k]? = some item) {o : Opening}
    {outer : List Opening} (h : Tracks ctx items k (o :: outer)) {f : Frame} {below : List Frame}
    (hstack : (stateAt ctx items k).nesting.stack = f :: below)
    (hnesting : (stateAt ctx items (k + 1)).nesting = (stateAt ctx items k).nesting.pop)
    (hindent : f.inline = true →
      (stateAt ctx items (k + 1)).page.indent = (stateAt ctx items k).page.indent) :
    Tracks ctx items (k + 1) outer := by
  obtain ⟨hpop, hpop'⟩ := Nesting.pop_of_top hstack
  have hover : (stateAt ctx items (k + 1)).nesting.overflow = 0 := by
    rw [hnesting, hpop', h.overflow]
  refine ⟨?_, hover, h.levelled_succ hready hk hover, ?_⟩
  · have hframes := h.frames
    rw [hstack] at hframes
    rw [hnesting, hpop]
    exact hframes.2
  · intro g hg hg'
    rw [hnesting, hpop] at hg
    have hmem : g ∈ (stateAt ctx items k).nesting.stack := by simp [hstack, hg]
    cases hf : f.inline with
    | true => rw [h.inline g hmem hg', hindent hf]
    | false =>
      have hnone : (stateAt ctx items k).nesting.inInline = false := by
        rw [Nesting.inInline, Nesting.top?, hstack]
        exact hf
      rw [h.levelled.blocks hnone g hmem] at hg'
      cases hg'

/-- An opener for which it is decided to add a frame. -/
theorem step_push (h : Tracks ctx items k opened) (hready : Item.Ready ctx items)
    (hk : items[k]? = some item) (hkind : item.token.kind = .openParen) {d : Decision} {f : Frame}
    (hdecision : ((stateAt ctx items k).sight ctx item.token).decision ctx item = d)
    (hnesting : d.nesting = (stateAt ctx items k).nesting.push f)
    (hkey : f.key = closerKey item.token)
    (hknown : (ctx.dialect.lexicon.opener? f.key).isSome = true)
    (hblock : f.isProcedural = ctx.dialect.lexicon.opensBlock f.key)
    (hline : f.outer = d.placed.getD (stateAt ctx items k).page.indent)
    (hinline : f.inline = true → d.placed = none ∧ d.settled = none)
    (houter : f.inline = false → (stateAt ctx items k).nesting.inInline = false) :
    Tracks ctx items (k + 1) (⟨k, closerKey item.token⟩ :: opened) := by
  have hcomment : item.token.kind.isComment = false := by rw [hkind]; rfl
  obtain ⟨hnesting', hline', hpage'⟩ := State.step_decision ctx (stateAt ctx items k) hcomment
  rw [← stateAt_succ ctx hk, hdecision] at hnesting' hline' hpage'
  refine h.push hready hk (hnesting'.trans hnesting) hkey (hkey ▸ hknown) (hkey ▸ hblock)
    (hline.trans hline'.symm) (fun hi => ?_) houter
  obtain ⟨hplaced, hsettled⟩ := hinline hi
  rw [hplaced] at hline
  rw [hsettled, hplaced] at hpage'
  exact ⟨hline.trans hpage'.symm, hpage'⟩

/-- Where there is room, an opener is dealt with by what it is. -/
theorem decision_opener (h : Tracks ctx items k opened) (hkind : item.token.kind = .openParen)
    (hroom : opened.length < maxDepth) :
    ((stateAt ctx items k).sight ctx item.token).decision ctx item =
      let v := (stateAt ctx items k).sight ctx item.token
      if item.token.isBracket then
        v.bracket ctx.style.alignValues item.token.text item.inlineWidth
      else
        match ctx.dialect.lexicon.opener? item.token.keyText with
        | none => v.content
        | some opener =>
          if opener.context == .procedural then v.procedural item.token.keyText opener.headerEnd
          else v.expression opener.context item.token.keyText := by
  have hfull : ((stateAt ctx items k).sight ctx item.token).nesting.isFull = false := by
    change (stateAt ctx items k).nesting.isFull = false
    rw [Nesting.isFull, h.frames.length_eq]
    simpa using hroom
  generalize (stateAt ctx items k).sight ctx item.token = v at hfull
  have hopener : v.decision ctx item = v.opener ctx item := by rw [Sight.decision, hkind]
  have hroom : ¬v.nesting.isFull = true := by rw [hfull]; exact Bool.false_ne_true
  rw [hopener, Sight.opener]
  refine (if_neg hroom).trans ?_
  cases ctx.dialect.lexicon.opener? item.token.keyText with
  | none => rfl
  | some opener => rfl

section New

variable (h : Tracks ctx items k opened) (hready : Item.Ready ctx items)
  (hk : items[k]? = some item) (hkind : item.token.kind = .openParen)
  (hroom : opened.length < maxDepth)
include h hready hk hkind hroom

theorem step_bracket (hbracket : item.token.isBracket = true) :
    Tracks ctx items (k + 1) (⟨k, closerKey item.token⟩ :: opened) := by
  have htext := (hready.paired item (List.mem_of_getElem? hk)).opening
    (by simp [isOpeningBracket, hkind, hbracket])
  have hdecision := h.decision_opener hkind hroom
  simp only [hbracket, if_true] at hdecision
  refine h.step_push hready hk hkind hdecision rfl ?_ ?_ ?_ rfl ?_ ?_
  · change item.token.text = closerKey item.token
    rw [closerKey, if_pos hbracket]
  · change (ctx.dialect.lexicon.opener? item.token.text).isSome = true
    rcases htext with htext | htext <;> rw [htext] <;> rfl
  · change false = ctx.dialect.lexicon.opensBlock item.token.text
    rcases htext with htext | htext <;> rw [htext] <;> rfl
  · -- a bracket that stays on the line asks for no other
    intro hinline
    exact ⟨rfl, if_pos hinline⟩
  · intro hinline
    exact (Bool.or_eq_false_iff.mp hinline).1

/-- An opening word that opens a block of its own. -/
theorem step_word (hword : item.token.isBracket = false)
    (hnew : ∀ o ∈ opened.head?, o.continuedBy item.token = false) :
    Tracks ctx items (k + 1) (⟨k, closerKey item.token⟩ :: opened) := by
  have hnone := h.not_inline hk (by simp [Token.breaksLine, hkind, hword])
  have hknown := hready.opens item (List.mem_of_getElem? hk) hkind hword
  obtain ⟨opener, hopener⟩ := Option.isSome_iff_exists.mp hknown
  have hkey : item.token.keyText = closerKey item.token := by
    rw [closerKey, if_neg (by simp [hword])]
  have hblock : ctx.dialect.lexicon.opensBlock item.token.keyText =
      (opener.context == .procedural) := by
    rw [Lexicon.opensBlock, hopener]
    rfl
  have hdecision := h.decision_opener hkind hroom
  simp only [hword, Bool.false_eq_true, if_false, hopener] at hdecision
  cases hproc : opener.context == .procedural with
  | false =>
    simp only [hproc, Bool.false_eq_true, if_false] at hdecision
    refine h.step_push hready hk hkind hdecision rfl hkey hknown ?_ rfl ?_ fun _ => hnone
    · exact (hblock.trans hproc ▸ hproc.symm ▸ rfl)
    · exact fun _ => ⟨rfl, rfl⟩
  | true =>
    have hprocedural : ((stateAt ctx items k).sight ctx item.token).procedural item.token.keyText
        opener.headerEnd = ((stateAt ctx items k).sight ctx item.token).block item.token.keyText
          opener.headerEnd := by
      unfold Sight.procedural
      split
      · next f hf =>
        obtain ⟨⟨below, hstack⟩, -⟩ := Nesting.topProcedural?_eq_some.mp hf
        have hframes := h.frames
        rw [show (stateAt ctx items k).nesting.stack = f :: below from hstack] at hframes
        cases opened with
        | nil => cases hframes
        | cons o outer =>
          have hnot := hnew o rfl
          rw [Opening.continuedBy, hword, Bool.not_false, Bool.true_and, ← hframes.1.key] at hnot
          rw [hnot, if_neg Bool.false_ne_true]
      · rfl
    -- the frame notes the line that the opener is put on, whichever that is
    obtain ⟨placed, hplaced⟩ : ∃ placed,
        ((stateAt ctx items k).sight ctx item.token).block item.token.keyText opener.headerEnd =
          ⟨placed, none, (stateAt ctx items k).nesting.push (frameAt .procedural item.token.keyText
            (placed.getD (stateAt ctx items k).page.indent) false opener.headerEnd none), none,
            if opener.headerEnd.isNone then
              some (placed.getD (stateAt ctx items k).page.indent + 1) else none, 0⟩ := ⟨_, rfl⟩
    simp only [hproc, if_true, hprocedural, hplaced] at hdecision
    refine h.step_push hready hk hkind hdecision rfl hkey hknown ?_ rfl ?_ fun _ => hnone
    · exact (hblock.trans hproc).symm
    · exact fun habs => Bool.noConfusion habs

/-- The opener of a block that is not yet open. -/
theorem step_new (hnew : ∀ o ∈ opened.head?, o.continuedBy item.token = false) :
    Tracks ctx items (k + 1) (⟨k, closerKey item.token⟩ :: opened) := by
  cases hbracket : item.token.isBracket with
  | true => exact h.step_bracket hready hk hkind hroom hbracket
  | false => exact h.step_word hready hk hkind hroom hbracket hnew

end New

/-- The `BEGIN` of a block that a `DECLARE` has opened. -/
theorem step_continued (hready : Item.Ready ctx items) (hk : items[k]? = some item) {o : Opening}
    {outer : List Opening} (h : Tracks ctx items k (o :: outer))
    (hkind : item.token.kind = .openParen) (hroom : (o :: outer).length < maxDepth)
    (hcontinued : o.continuedBy item.token = true) :
    Tracks ctx items (k + 1) (⟨o.place, item.token.keyText⟩ :: outer) := by
  have hmem := List.mem_of_getElem? hk
  obtain ⟨f, below, hstack, hholds, -⟩ := h.frames.exists_cons
  simp only [Opening.continuedBy, Bool.and_eq_true, Bool.not_eq_true', beq_iff_eq] at hcontinued
  obtain ⟨⟨hword, hbegin⟩, hdeclare⟩ := hcontinued
  have hfull : (stateAt ctx items k).nesting.isFull = false := by
    rw [Nesting.isFull, h.frames.length_eq]
    simpa using hroom
  have hf : f.isProcedural = true := by
    rw [hholds.block]
    exact ctx.dialect.opensBlock_of_known (.inr hdeclare) hholds.known
  have hblock : ctx.dialect.lexicon.opensBlock item.token.keyText = true :=
    ctx.dialect.opensBlock_of_known (.inl hbegin) (hready.opens item hmem hkind hword)
  obtain ⟨opener, hopener⟩ := Option.isSome_iff_exists.mp (hready.opens item hmem hkind hword)
  have hproc : (opener.context == .procedural) = true := by
    rw [Lexicon.opensBlock, hopener] at hblock
    exact hblock
  have htop : ((stateAt ctx items k).sight ctx item.token).nesting.topProcedural? = some f :=
    Nesting.topProcedural?_eq_some.mpr ⟨⟨below, hstack⟩, hf⟩
  have hcomment : item.token.kind.isComment = false := by rw [hkind]; rfl
  obtain ⟨hnesting, -, -⟩ := State.step_decision ctx (stateAt ctx items k) hcomment
  rw [← stateAt_succ ctx hk, Sight.decision, hkind] at hnesting
  simp only [Sight.opener, hopener, Sight.procedural, htop] at hnesting
  rw [if_neg (by simpa [State.sight] using hfull), if_neg (by simp [hword]), if_pos hproc,
    if_pos (by simp [hbegin, hholds.key, hdeclare])] at hnesting
  exact Tracks.resume hready hk h hstack hf hblock hnesting

/-- What a closer of the innermost block does. -/
theorem step_closer (hk : items[k]? = some item) {o : Opening} {outer : List Opening}
    (h : Tracks ctx items k (o :: outer)) (hkind : item.token.kind = .closeParen)
    (hcloses : ctx.dialect.lexicon.closes (closerKey item.token) o.key = true) {f : Frame}
    {below : List Frame} (hstack : (stateAt ctx items k).nesting.stack = f :: below) :
    (stateAt ctx items (k + 1)).nesting = (stateAt ctx items k).nesting.pop ∧
      (stateAt ctx items (k + 1)).page.line.indent = f.outer ∧
      (stateAt ctx items (k + 1)).page.indent = f.outer := by
  have hframes := h.frames
  rw [hstack] at hframes
  have hclose : ((stateAt ctx items k).sight ctx item.token).nesting.close?
      (fun f => ctx.dialect.lexicon.closes (closerKey item.token) f.key) =
        some (f, (stateAt ctx items k).nesting.pop) :=
    Nesting.close?_of_top hstack (by rw [hframes.1.key]; exact hcloses)
  have hover : ¬0 < ((stateAt ctx items k).sight ctx item.token).nesting.overflow := by
    change ¬0 < (stateAt ctx items k).nesting.overflow
    rw [h.overflow]
    exact Nat.lt_irrefl 0
  have hdecision : ((stateAt ctx items k).sight ctx item.token).decision ctx item =
      ⟨if f.inline then none else some f.outer, none, (stateAt ctx items k).nesting.pop, none, none, 0⟩ := by
    rw [Sight.decision, hkind]
    simp only [Sight.closer, hover, if_false, hclose]
  have hcomment : item.token.kind.isComment = false := by rw [hkind]; rfl
  obtain ⟨hnesting, hline, hpage⟩ := State.step_decision ctx (stateAt ctx items k) hcomment
  rw [← stateAt_succ ctx hk, hdecision] at hnesting hline hpage
  have hindent : (if f.inline then none else some f.outer : Option Nat).getD
      (stateAt ctx items k).page.indent = f.outer := by
    cases hinline : f.inline with
    | true => exact (h.inline f (by simp [hstack]) hinline).symm
    | false => rfl
  exact ⟨hnesting, hline.trans hindent, hpage.trans hindent⟩

/-- A token that is no opener and no closer, and no semicolon that ends a query, leaves the openers
open. -/
theorem step_other (h : Tracks ctx items k opened) (hready : Item.Ready ctx items)
    (hk : items[k]? = some item) (hopen : item.token.kind ≠ .openParen)
    (hclose : item.token.kind ≠ .closeParen)
    (hsemi : item.token.isOperator ";" = true →
      ∀ f ∈ (stateAt ctx items k).nesting.stack.head?, f.isProcedural = true) :
    Tracks ctx items (k + 1) opened := by
  cases hcomment : item.token.kind.isComment with
  | true =>
    have hbreaks : item.token.breaksLine = true := by
      unfold Token.breaksLine
      cases hkind : item.token.kind <;> rw [hkind] at hcomment <;> first | rfl | cases hcomment
    have hnone := h.not_inline hk hbreaks
    refine h.goes hready hk ?_ fun habs => absurd (habs.symm.trans hnone) (by simp)
    rw [stateAt_succ ctx hk, State.step, if_pos hcomment, State.comment_eq]
    exact .refl _
  | false =>
    obtain ⟨hgoes, hquiet⟩ : let v := (stateAt ctx items k).sight ctx item.token
        v.nesting.Goes (v.decision ctx item).nesting ∧ v.Quiet (v.decision ctx item) :=
      Sight.goes_decision h.sound h.overflow hopen hclose hsemi
    obtain ⟨hnesting, -, hpage⟩ := State.step_decision ctx (stateAt ctx items k) hcomment
    rw [← stateAt_succ ctx hk] at hnesting hpage
    refine h.goes hready hk (hnesting ▸ hgoes) fun hinline => ?_
    rw [hpage, hquiet.settled hinline, hquiet.placed hinline]
    rfl

/-- A semicolon inside the innermost opener ends a statement of a block. -/
theorem procedural_of_allowed (h : Tracks ctx items k opened)
    (hallowed : ∀ o ∈ opened.head?, ctx.dialect.lexicon.opensBlock o.key = true) :
    ∀ f ∈ (stateAt ctx items k).nesting.stack.head?, f.isProcedural = true := by
  intro f hf
  cases opened with
  | nil =>
    rw [List.length_eq_zero_iff.mp h.frames.length_eq] at hf
    cases hf
  | cons o outer =>
    obtain ⟨g, below, hstack, hholds, -⟩ := h.frames.exists_cons
    rw [hstack] at hf
    obtain rfl : g = f := by simpa using hf
    rw [hholds.block]
    exact hallowed o rfl

/-- An opener is opened, or continues the one before. -/
theorem step_opener (h : Tracks ctx items k opened) (hready : Item.Ready ctx items)
    (hk : items[k]? = some item) (hkind : item.token.kind = .openParen)
    (hbounded : (Opening.push opened k item.token).length ≤ maxDepth)
    (hcontinued : ∀ o ∈ opened.head?, o.continuedBy item.token = true → opened.length < maxDepth) :
    Tracks ctx items (k + 1) (Opening.push opened k item.token) := by
  cases opened with
  | nil => exact h.step_new hready hk hkind (by decide) (by simp)
  | cons o outer =>
    cases hc : o.continuedBy item.token with
    | true =>
      rw [Opening.push, hc, if_pos rfl]
      exact step_continued hready hk h hkind (hcontinued o rfl hc) hc
    | false =>
      have hnew : ∀ p ∈ (o :: outer).head?, p.continuedBy item.token = false := by
        rintro p ⟨⟩
        exact hc
      rw [Opening.push_of_new hnew] at hbounded ⊢
      exact h.step_new hready hk hkind hbounded hnew

/-- **Frames follow openers**, token by token. -/
theorem step (h : Tracks ctx items k opened) (hready : Item.Ready ctx items)
    (hk : items[k]? = some item) {after : List Opening}
    (hstep : Opening.step? ctx.dialect.lexicon opened k item.token = some after)
    (hbounded : after.length ≤ maxDepth)
    (hcontinued : ∀ o ∈ opened.head?, item.token.kind = .openParen →
      o.continuedBy item.token = true → opened.length < maxDepth) :
    Tracks ctx items (k + 1) after := by
  cases hkind : item.token.kind with
  | openParen =>
    rw [Opening.step?, hkind] at hstep
    obtain rfl := Option.some.inj hstep
    exact h.step_opener hready hk hkind hbounded fun o ho => hcontinued o ho hkind
  | closeParen =>
    rw [Opening.step?, hkind] at hstep
    cases opened with
    | nil => cases hstep
    | cons o outer =>
      simp only [Opening.pop?] at hstep
      split at hstep
      · next hcloses =>
        obtain rfl := Option.some.inj hstep
        obtain ⟨f, below, hstack, -⟩ := h.frames.exists_cons
        obtain ⟨hnesting, -, hpage⟩ := step_closer hk h hkind hcloses hstack
        refine pop hready hk h hstack hnesting fun hinline => ?_
        rw [hpage, h.inline f (by simp [hstack]) hinline]
      · cases hstep
  | operator =>
    rw [Opening.step?, hkind] at hstep
    simp only at hstep
    split at hstep
    · cases hstep
    · next hallowed =>
      obtain rfl := Option.some.inj hstep
      refine h.step_other hready hk (by simp [hkind]) (by simp [hkind]) fun hsemi => ?_
      have htext : item.token.text = ";" := by
        simpa [Token.isOperator, hkind] using hsemi
      refine h.procedural_of_allowed fun o ho => ?_
      obtain ⟨outer, rfl⟩ := List.head?_eq_some_iff.mp ho
      simpa [htext] using hallowed
  | whitespace | lineComment | blockComment | reservedTopLevel | reservedTopLevelNoIndent
    | reservedNewline | reserved | string | indexedPlaceholder | namedPlaceholder | number | word =>
    rw [Opening.step?, hkind] at hstep
    obtain rfl := Option.some.inj hstep
    exact h.step_other hready hk (by simp [hkind]) (by simp [hkind])
      (by simp [Token.isOperator, hkind])

end Tracks

/-- Frames follow openers up to every item. -/
theorem tracks_stateAt (hready : Item.Ready ctx items)
    (hroom : Opening.Roomy ctx.dialect.lexicon (items.map (·.token))) {k : Nat}
    (hk : k ≤ items.length) {opened : List Opening}
    (hopened : Opening.all? ctx.dialect.lexicon ((items.map (·.token)).take k) = some opened) :
    Tracks ctx items k opened := by
  induction k generalizing opened with
  | zero =>
    obtain rfl := Option.some.inj hopened
    exact .start ctx items
  | succ k ih =>
    have hitem : items[k]? = some items[k] := List.getElem?_eq_getElem hk
    have htoken : (items.map (·.token))[k]? = some items[k].token := by rw [List.getElem?_map, hitem]; rfl
    have hafter := hopened
    rw [List.take_add_one, htoken, Option.toList_some, Opening.all?_append] at hafter
    obtain ⟨before, hbefore, hstep⟩ := Option.bind_eq_some_iff.mp hafter
    have hlength : ((items.map (·.token)).take k).length = k := by
      rw [List.length_take, List.length_map]
      omega
    rw [hlength] at hstep
    refine (ih (by omega) hbefore).step hready hitem hstep ?_ ?_
    · exact hroom.bounded (k + 1) (by simpa using hk) opened hopened
    · intro o ho hkind hcontinued
      exact hroom.continued k (by simpa using hk) before hbefore o ho
        (by simpa using hkind) (by simpa using hcontinued)

/-! ## Closers -/

/-- The closer with `k` items before it returns to an opener: it closes just the frame that the opener
has added, and stands on a line with the indentation of the line of the opener. -/
structure Returns (ctx : Context) (items : List Item) (k : Nat) (o : Opening) : Prop where
  frame : ∃ f g, f.Same g ∧
    (stateAt ctx items (o.place + 1)).nesting.stack = f :: (stateAt ctx items o.place).nesting.stack ∧
    (stateAt ctx items k).nesting.stack = g :: (stateAt ctx items o.place).nesting.stack
  popped : (stateAt ctx items (k + 1)).nesting.stack = (stateAt ctx items o.place).nesting.stack
  line : (stateAt ctx items (k + 1)).page.line.indent =
    (stateAt ctx items (o.place + 1)).page.line.indent

theorem Tracks.returns {k : Nat} {o : Opening} {outer : List Opening} (hk : items[k]? = some item)
    (h : Tracks ctx items k (o :: outer)) (hkind : item.token.kind = .closeParen)
    (hcloses : ctx.dialect.lexicon.closes (closerKey item.token) o.key = true) :
    Returns ctx items k o := by
  obtain ⟨f, below, hstack, hholds, -⟩ := h.frames.exists_cons
  obtain ⟨hnesting, hline, -⟩ := Tracks.step_closer hk h hkind hcloses hstack
  obtain ⟨g, hpushed, hsame⟩ := hholds.pushed
  obtain rfl := hholds.before
  refine ⟨⟨g, f, hsame, hpushed, hstack⟩, ?_, hline.trans hholds.line⟩
  rw [hnesting, (Nesting.pop_of_top hstack).1]

/-- The items of a text. -/
def itemsOfText (dialect : Dialect) (style : Style) (text : String) : List Item :=
  Item.ofTokens ((tokenize dialect.lexicon text).map style.params.substitute)

theorem ready_itemsOfText (ctx : Context) (text : String) :
    Item.Ready ctx (itemsOfText ctx.dialect ctx.style text) := by
  have hpaired : ∀ t ∈ (tokenize ctx.dialect.lexicon text).map ctx.style.params.substitute,
      t.Paired ctx.dialect.lexicon := by
    refine List.forall_mem_map.mpr fun t ht => ?_
    exact (paired_of_mem ctx.dialect .start 0 text.toList t ht).substitute _
  have hopens : ∀ t ∈ (tokenize ctx.dialect.lexicon text).map ctx.style.params.substitute,
      t.Opens ctx.dialect.lexicon := by
    refine List.forall_mem_map.mpr fun t ht => ?_
    exact (opens_of_mem ctx.dialect .start 0 text.toList t ht).substitute _
  have hmem : ∀ item ∈ itemsOfText ctx.dialect ctx.style text,
      item.token ∈ (tokenize ctx.dialect.lexicon text).map ctx.style.params.substitute :=
    fun item hitem => (Item.mem_of_mem_ofTokens hitem).1
  exact ⟨fun item hi => hpaired _ (hmem item hi), fun item hi => hopens _ (hmem item hi),
    Item.quiet_ofTokens fun t ht => (hpaired t ht).opening⟩

end SqlFormat.Layout

namespace SqlFormat

open Layout

/-- **Closers return to their openers**: where the tokens of a text are well nested, every closer closes
just the frame of its opener and stands on a line with the indentation of the line of the opener, and
nothing is open at the end. -/
theorem closers_return (ctx : Context) (text : String)
    (hnested : Opening.all? ctx.dialect.lexicon
      ((itemsOfText ctx.dialect ctx.style text).map (·.token)) = some [])
    (hroom : Opening.Roomy ctx.dialect.lexicon
      ((itemsOfText ctx.dialect ctx.style text).map (·.token))) :
    let items := itemsOfText ctx.dialect ctx.style text
    (stateAt ctx items items.length).nesting.stack = [] ∧
      ∀ k item, items[k]? = some item → item.token.kind = .closeParen →
        ∃ o outer, Opening.all? ctx.dialect.lexicon ((items.map (·.token)).take k) =
          some (o :: outer) ∧ Returns ctx items k o := by
  intro items
  have hready := ready_itemsOfText ctx text
  constructor
  · have hwhole : Opening.all? ctx.dialect.lexicon
        ((items.map (·.token)).take items.length) = some [] := by
      rw [← List.length_map (f := (·.token)), List.take_length]
      exact hnested
    have hall := tracks_stateAt hready hroom le_rfl hwhole
    exact List.length_eq_zero_iff.mp hall.frames.length_eq
  · intro k item hk hkind
    obtain ⟨hlt, rfl⟩ := List.getElem?_eq_some_iff.mp hk
    have htake : ∀ m, (Opening.all? ctx.dialect.lexicon ((items.map (·.token)).take m)).isSome :=
      Opening.all?_take _ (by rw [hnested]; rfl)
    obtain ⟨opened, hopened⟩ := Option.isSome_iff_exists.mp (htake k)
    have htracks := tracks_stateAt hready hroom hlt.le hopened
    -- the closer is allowed, so that it closes the innermost opener
    have hafter := htake (k + 1)
    have htoken : (items.map (·.token))[k]? = some items[k].token := by rw [List.getElem?_map, hk]; rfl
    rw [List.take_add_one, htoken, Option.toList_some, Opening.all?_append, hopened,
      Option.bind_some, Opening.step?, hkind] at hafter
    cases opened with
    | nil => cases hafter
    | cons o outer =>
      refine ⟨o, outer, hopened, htracks.returns hk hkind ?_⟩
      simp only [Opening.pop?] at hafter
      split at hafter
      · assumption
      · cases hafter

/-- A block in a bracket, with a group on one line: the `END` is the token with 6 tokens before it. -/
theorem closers_return_block :
    let ctx : Context := ⟨.standard, .plsql, fun _ text => text⟩
    let items := itemsOfText .plsql .standard "(DECLARE BEGIN (a) END)"
    (stateAt ctx items items.length).nesting.stack = [] ∧
      ∃ o outer, Opening.all? Lexicon.plsql ((items.map (·.token)).take 6) = some (o :: outer) ∧
        Returns ctx items 6 o := by
  intro ctx items
  obtain ⟨hend, hall⟩ := closers_return ctx "(DECLARE BEGIN (a) END)" (by decide +kernel)
    ⟨by decide +kernel, by decide +kernel⟩
  have hitem : (items[6]?.any fun item => item.token.kind == .closeParen) = true := by
    decide +kernel
  cases hk : items[6]? with
  | none =>
    rw [hk] at hitem
    cases hitem
  | some item =>
    rw [hk] at hitem
    exact ⟨hend, hall 6 item hk (by simpa using hitem)⟩

/-- A `BEGIN` continues the block of a `DECLARE` where as many openers are open as may have a frame. It
is counted as an opener without one, so that its `END`, the token with 66 tokens before it, leaves the
block open. -/
theorem not_returns_of_continued :
    let ctx : Context := ⟨.standard, .plsql, fun _ text => text⟩
    let items := itemsOfText .plsql .standard (.ofList
      (List.replicate 63 '(' ++ "DECLARE BEGIN x END".toList ++ List.replicate 63 ')'))
    Opening.all? Lexicon.plsql (items.map (·.token)) = some [] ∧
      (∀ k ≤ items.length, ∀ opened ∈ Opening.all? Lexicon.plsql ((items.map (·.token)).take k),
        opened.length ≤ maxDepth) ∧
      ∃ o outer, Opening.all? Lexicon.plsql ((items.map (·.token)).take 66) = some (o :: outer) ∧
        ¬Returns ctx items 66 o := by
  intro ctx items
  have hrun : Opening.all? Lexicon.plsql (items.map (·.token)) = some [] ∧
      (∀ k ≤ items.length, ∀ opened ∈ Opening.all? Lexicon.plsql ((items.map (·.token)).take k),
        opened.length ≤ maxDepth) ∧
      (Opening.all? Lexicon.plsql ((items.map (·.token)).take 66)).bind List.head? =
        some ⟨63, "begin"⟩ ∧
      (stateAt ctx items 67).nesting.stack ≠ (stateAt ctx items 63).nesting.stack := by
    simp only [items, itemsOfText, tokenize, String.toList_ofList]
    decide +kernel
  obtain ⟨hnested, hbounded, hopen, hstack⟩ := hrun
  obtain ⟨opened, hopened, hhead⟩ := Option.bind_eq_some_iff.mp hopen
  obtain ⟨outer, rfl⟩ := List.head?_eq_some_iff.mp hhead
  exact ⟨hnested, hbounded, _, outer, hopened, fun hreturns => hstack hreturns.popped⟩
end SqlFormat

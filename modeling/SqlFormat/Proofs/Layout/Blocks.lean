import Mathlib
import SqlFormat.Proofs.Layout.Turn

/-!
# The open blocks of a run

Whatever the tokens are, well nested or not, the counters beside the stack of open blocks agree with
it after every token, and the stack is never higher than `maxDepth`.

Results: `Turn.sound` (one token), `run_sound` (all of them), `blocks_sound`.
-/

namespace SqlFormat.Layout

variable {ctx : Context} {s : State} {item : Item}

namespace State

theorem frameAt_sound {context : BlockContext} {key : String} {outer : Nat} {inline : Bool}
    {headerEnd : Option String} {slot : Option Nat}
    (h : inline = true → context ≠ .procedural ∧ headerEnd = none) :
    (frameAt context key outer inline headerEnd slot).Sound where
  base := rfl
  inline hi := ⟨by simpa [Frame.isProcedural, frameAt] using (h hi).1, (h hi).2, rfl⟩

/-- A procedural frame is not on one line, so its clause and header may change. -/
theorem not_inline_of_procedural {f : Frame} (hf : f.Sound) (hp : f.isProcedural = true) :
    f.inline = false := by
  cases hi : f.inline with
  | false => rfl
  | true => rw [(hf.inline hi).1] at hp; cases hp

/-- Every turn keeps the invariant of the open blocks. -/
theorem Turn.sound {d : Decision} (h : Turn ctx s item d) (hs : s.nesting.Sound) :
    d.nesting.Sound := by
  -- The innermost frame, when it is procedural, may change in everything but context and base.
  have hmodify : ∀ {n : Nesting} {f : Frame}, n.Sound → n.topProcedural? = some f →
      ∀ change : Frame → Frame, (∀ g, (change g).context = g.context) →
      (∀ g, (change g).base = g.base ∧ (change g).outer = g.outer ∧ (change g).inline = g.inline) →
      (n.modifyTop change).Sound := by
    intro n f hn hframe change hcontext hsame
    refine hn.modifyTop (fun g hg hgs => ?_) hcontext
    obtain ⟨⟨rest, hstack⟩, hproc⟩ := Nesting.topProcedural?_eq_some.mp hframe
    obtain rfl : f = g := by simpa [Nesting.top?, hstack] using hg
    obtain ⟨hbase, houter, hinline⟩ := hsame f
    refine ⟨by rw [hbase, houter, hgs.base], fun hi => ?_⟩
    rw [hinline, not_inline_of_procedural hgs hproc] at hi
    cases hi
  have hkeeps : s.keepsLine = false → s.nesting.inInline = false := by
    intro h
    simp only [keepsLine, Bool.or_eq_false_iff] at h
    exact h.1
  cases h with
  | content => exact hs
  | skipOpener _ hfull =>
    have hlen : maxDepth ≤ s.nesting.stack.length := by simpa [Nesting.isFull] using hfull
    exact ⟨hs.procedural, hs.bounded, fun _ => Nat.le_antisymm hs.bounded hlen, hs.frames⟩
  | skipCloser _ hover => exact ⟨hs.procedural, hs.bounded, fun _ => hs.full hover, hs.frames⟩
  | clause _ hk clause => exact hs.setClause (hkeeps hk) clause
  | line => exact hs
  | last => exact hs
  | header hframe => exact hmodify hs hframe _ (fun _ => rfl) fun _ => ⟨rfl, rfl, rfl⟩
  | division hframe => exact hmodify hs hframe _ (fun _ => rfl) fun _ => ⟨rfl, rfl, rfl⟩
  | headerEnd =>
    refine hs.modifyTop (fun g _ hgs => ⟨hgs.base, fun hi => ?_⟩) fun _ => rfl
    exact ⟨(hgs.inline hi).1, rfl, (hgs.inline hi).2.2⟩
  | comma => exact hs
  | commaLine => exact hs
  | value => exact hs.modifyTop (fun g _ hgs => ⟨hgs.base, hgs.inline⟩) fun _ => rfl
  | @statement n f _ hblock hframe =>
    obtain ⟨-, g, rest, -, -, hproc, hn, hstack⟩ := Nesting.toProcedural?_eq_some hblock
    have htop : n.topProcedural? = some g := Nesting.topProcedural?_eq_some.mpr ⟨⟨rest, hstack⟩, hproc⟩
    refine hmodify ?_ htop _ (fun _ => rfl) fun _ => ⟨rfl, rfl, rfl⟩
    rw [hn]
    exact hs.truncate _
  | query => exact hs.clear
  | bracket _ hfull => exact hs.push hfull (frameAt_sound fun _ => ⟨by decide, rfl⟩)
  | expression _ _ hfull hcontext => exact hs.push hfull (frameAt_sound fun _ => ⟨hcontext, rfl⟩)
  | declared hframe => exact hmodify hs hframe _ (fun _ => rfl) fun _ => ⟨rfl, rfl, rfl⟩
  | block _ _ hfull => exact hs.push hfull (frameAt_sound fun h => by cases h)
  | close _ hover hclose => exact hs.close? hover hclose

theorem comment_nesting (ctx : Context) (s : State) (item : Item) :
    (s.comment ctx item).nesting = s.nesting := by
  rw [comment_eq]

theorem step_sound (ctx : Context) (hs : s.nesting.Sound) (item : Item) :
    (s.step ctx item).nesting.Sound := by
  unfold step
  split
  · rw [comment_nesting]
    exact hs
  · obtain ⟨d, hturn, heq⟩ := turns_significant ctx s item
    rw [heq]
    exact hturn.sound hs

theorem run_sound (ctx : Context) (hs : s.nesting.Sound) (items : List Item) :
    (s.run ctx items).nesting.Sound := by
  induction items generalizing s with
  | nil => exact hs
  | cons item items ih => exact ih (step_sound ctx hs item)

end State

/-- Nothing is ever taken below zero: truncating and closing take from the counter of procedural
frames exactly what was counted for the frames that go. -/
structure Nesting.Exact (n : Nesting) : Prop where
  truncate : ∀ size, (n.truncate size).proceduralDepth +
    countProcedural (n.stack.take (n.stack.length - size)) = n.proceduralDepth
  close : ∀ p f m, n.close? p = some (f, m) → m.proceduralDepth +
    countProcedural (n.stack.take (n.stack.length - m.stack.length)) = n.proceduralDepth

/-- **The open blocks are counted right**, after every token of every sequence. -/
theorem blocks_sound (ctx : Context) (tokens : List Token) (k : Nat) :
    let s := State.start.run ctx ((Item.ofTokens tokens).take k)
    s.nesting.Sound ∧ s.nesting.Exact ∧
      ∀ item, item.token.kind = .closeParen → 0 < s.nesting.overflow →
        (s.step ctx item).nesting.overflow + 1 = s.nesting.overflow := by
  intro s
  have hs : s.nesting.Sound := State.run_sound ctx Nesting.sound_start _
  refine ⟨hs, ⟨hs.truncate_depth, fun p f m => hs.close?_depth⟩, fun item hkind hover => ?_⟩
  have hstep : (s.step ctx item).nesting =
      { s.nesting with overflow := s.nesting.overflow - 1 } := by
    simp only [State.step, State.significant, State.closeGroup, hkind, TokenKind.isComment, hover,
      Bool.false_eq_true, if_true, if_false]
    rw [State.content, State.emit_eq]
  rw [hstep]
  exact Nat.sub_add_cancel hover

end SqlFormat.Layout

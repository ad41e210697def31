import Mathlib
import SqlFormat.Layout.Nesting

/-!
# What the operations on open blocks do

The operations that close blocks, as equations between stacks, and the invariant of the counters that
are kept beside the stack: the procedural frames are counted exactly, there are at most `maxDepth`
frames, and openers are counted as skipped only while there is no room. Every operation keeps it.

Results: `close?_eq_some`, `toProcedural?_eq_some` (the stacks), `Sound.truncate`, `Sound.push`,
`Sound.close?` (the invariant).
-/

namespace SqlFormat.Layout

/-- What holds of every frame. A block on one line is neither procedural nor does it have a header or
clauses. -/
structure Frame.Sound (f : Frame) : Prop where
  base : f.base = f.outer + 1
  inline : f.inline = true → f.isProcedural = false ∧ f.headerEnd = none ∧ f.clause = none

namespace Nesting

variable {n m : Nesting} {f : Frame} {rest : List Frame} {p : Frame → Bool}

/-! ## Stacks -/

theorem setClause_stack_cons (h : n.stack = f :: rest) (clause : Option Clause) :
    (n.setClause clause).stack = { f with clause := clause } :: rest := by
  rw [setClause, h]

theorem modifyTop_stack_cons (h : n.stack = f :: rest) (change : Frame → Frame) :
    (n.modifyTop change).stack = change f :: rest := by
  rw [modifyTop, h]

theorem top?_eq_some : n.top? = some f ↔ ∃ rest, n.stack = f :: rest := by
  rw [top?, List.head?_eq_some_iff]

theorem topProcedural?_eq_some :
    n.topProcedural? = some f ↔ (∃ rest, n.stack = f :: rest) ∧ f.isProcedural = true := by
  rw [topProcedural?, Option.filter_eq_some_iff, top?_eq_some]

/-- Counting values changes nothing that decides about lines. -/
theorem modifyTop_value (n : Nesting) (slot : Option Nat) :
    (n.modifyTop fun f => { f with valueSlot := slot }).inInline = n.inInline ∧
      (n.modifyTop fun f => { f with valueSlot := slot }).inHeader = n.inHeader ∧
      (n.modifyTop fun f => { f with valueSlot := slot }).depth = n.depth := by
  obtain ⟨stack, root, procedural, overflow⟩ := n
  cases stack <;> exact ⟨rfl, rfl, rfl⟩

/-- The innermost frames are dropped. -/
theorem truncate_stack (n : Nesting) (size : Nat) :
    (n.truncate size).stack = n.stack.drop (n.stack.length - size) := by
  unfold truncate
  split
  · next h => rw [Nat.sub_eq_zero_of_le h, List.drop_zero]
  · rfl

theorem truncate_append {pre : List Frame} (h : n.stack = pre ++ rest) :
    (n.truncate rest.length).stack = rest := by
  rw [truncate_stack, h, List.length_append, Nat.add_sub_cancel, List.drop_left]

/-- A run of frames that fail a test, up to the first that passes it. -/
theorem exists_append_of_dropWhile {stack : List Frame}
    (h : stack.dropWhile (fun f => !p f) = f :: rest) :
    ∃ pre, stack = pre ++ f :: rest ∧ (∀ g ∈ pre, p g = false) ∧ p f = true := by
  refine ⟨stack.takeWhile fun f => !p f, ?_, fun g hg => ?_, ?_⟩
  · rw [← h, List.takeWhile_append_dropWhile]
  · simpa using List.mem_takeWhile_imp hg
  · have hne : stack.dropWhile (fun f => !p f) ≠ [] := by rw [h]; exact List.cons_ne_nil f rest
    simpa [h] using List.head_dropWhile_not (fun f => !p f) hne

/-! ## Openers without a frame -/

theorem overflow_modifyTop (n : Nesting) (change : Frame → Frame) :
    (n.modifyTop change).overflow = n.overflow := by
  unfold modifyTop
  split <;> rfl

theorem overflow_setClause (n : Nesting) (clause : Option Clause) :
    (n.setClause clause).overflow = n.overflow := by
  unfold setClause
  split <;> rfl

theorem overflow_pop (n : Nesting) : n.pop.overflow = n.overflow := by
  unfold pop
  split <;> rfl

theorem overflow_truncate_le (n : Nesting) (size : Nat) : (n.truncate size).overflow ≤ n.overflow := by
  unfold truncate
  split
  · exact le_rfl
  · exact Nat.zero_le _

theorem truncate_overflow (hover : n.overflow = 0) (size : Nat) : (n.truncate size).overflow = 0 :=
  Nat.eq_zero_of_le_zero (hover ▸ overflow_truncate_le n size)

/-! ## What closes blocks -/

/-- Closing a frame closes all that is open inside it. -/
theorem close?_eq_some (h : n.close? p = some (f, m)) :
    ∃ pre, n.stack = pre ++ f :: m.stack ∧ (∀ g ∈ pre, p g = false) ∧ p f = true ∧
      m = (n.truncate (m.stack.length + 1)).pop := by
  unfold close? at h
  split at h
  · cases h
  · next g rest hdrop =>
    obtain ⟨pre, hstack, hpre, hf⟩ := exists_append_of_dropWhile hdrop
    simp only [Option.some.injEq, Prod.mk.injEq] at h
    obtain ⟨rfl, rfl⟩ := h
    have htop : (n.truncate (rest.length + 1)).stack = g :: rest := truncate_append hstack
    have hpop : (n.truncate (rest.length + 1)).pop.stack = rest := by rw [pop, htop]
    exact ⟨pre, by rw [hpop, hstack], hpre, hf, by rw [hpop]⟩

theorem overflow_close? (hover : n.overflow = 0) (hclose : n.close? p = some (f, m)) :
    m.overflow = 0 := by
  obtain ⟨-, -, -, -, hm⟩ := close?_eq_some hclose
  rw [hm, overflow_pop]
  exact truncate_overflow hover _

/-- What no frame passes closes nothing. -/
theorem close?_eq_none : n.close? p = none ↔ ∀ g ∈ n.stack, p g = false := by
  unfold close?
  split
  · next h => simpa using h
  · next f rest h =>
    obtain ⟨pre, hstack, _, hf⟩ := exists_append_of_dropWhile h
    simp only [reduceCtorEq, false_iff, not_forall]
    exact ⟨f, by rw [hstack]; simp, by simp [hf]⟩

/-- Only what is open inside the innermost procedural frame is dropped. -/
theorem toProcedural?_eq_some (h : n.toProcedural? = some m) :
    ∃ pre f rest, n.stack = pre ++ f :: rest ∧ (∀ g ∈ pre, g.isProcedural = false) ∧
      f.isProcedural = true ∧ m = n.truncate (f :: rest).length ∧ m.stack = f :: rest := by
  unfold toProcedural? at h
  split at h
  · cases h
  · next f rest hdrop =>
    obtain ⟨pre, hstack, hpre, hf⟩ := exists_append_of_dropWhile hdrop
    cases h
    exact ⟨pre, f, rest, hstack, hpre, hf, rfl, truncate_append hstack⟩

/-! ## What holds of all frames -/

section Frames

variable {q : Frame → Prop}

theorem forall_modifyTop (h : ∀ f ∈ n.stack, q f) {change : Frame → Frame}
    (hchange : ∀ f, q f → q (change f)) : ∀ f ∈ (n.modifyTop change).stack, q f := by
  cases hstack : n.stack with
  | nil => simp [modifyTop, hstack]
  | cons g rest =>
    rw [modifyTop_stack_cons hstack]
    rw [hstack] at h
    rintro f (_ | ⟨_, hf⟩)
    · exact hchange g (h g (by simp))
    · exact h f (List.mem_cons_of_mem _ hf)

theorem forall_setClause (h : ∀ f ∈ n.stack, q f) {clause : Option Clause}
    (hchange : ∀ f, q f → q { f with clause := clause }) :
    ∀ f ∈ (n.setClause clause).stack, q f := by
  cases hstack : n.stack with
  | nil => simp [setClause, hstack]
  | cons g rest =>
    rw [setClause_stack_cons hstack]
    rw [hstack] at h
    rintro f (_ | ⟨_, hf⟩)
    · exact hchange g (h g (by simp))
    · exact h f (List.mem_cons_of_mem _ hf)

theorem forall_truncate (h : ∀ f ∈ n.stack, q f) (size : Nat) :
    ∀ f ∈ (n.truncate size).stack, q f := by
  intro f hf
  rw [truncate_stack] at hf
  exact h f (List.mem_of_mem_drop hf)

theorem forall_close? (h : ∀ f ∈ n.stack, q f) (hclose : n.close? p = some (f, m)) :
    ∀ f ∈ m.stack, q f := by
  obtain ⟨pre, hstack, -⟩ := close?_eq_some hclose
  intro g hg
  refine h g ?_
  rw [hstack]
  exact List.mem_append_right _ (List.mem_cons_of_mem _ hg)

end Frames

/-! ## The invariant -/

/-- What holds of the open blocks after every token. -/
structure Sound (n : Nesting) : Prop where
  procedural : n.proceduralDepth = countProcedural n.stack
  bounded : n.stack.length ≤ maxDepth
  full : 0 < n.overflow → n.stack.length = maxDepth
  frames : ∀ f ∈ n.stack, f.Sound

theorem sound_start : start.Sound where
  procedural := rfl
  bounded := Nat.zero_le _
  full h := absurd h (by decide)
  frames := by simp [start]

theorem Sound.overflow_eq_zero (h : n.Sound) (hroom : n.isFull = false) : n.overflow = 0 := by
  by_contra hne
  have hfull := h.full (Nat.pos_of_ne_zero hne)
  simp [isFull, hfull] at hroom

theorem countProcedural_append (a b : List Frame) :
    countProcedural (a ++ b) = countProcedural a + countProcedural b :=
  List.countP_append

theorem countProcedural_cons (f : Frame) (rest : List Frame) :
    countProcedural (f :: rest) = countProcedural rest + f.isProcedural.toNat := by
  rw [countProcedural, countProcedural, List.countP_cons]
  cases f.isProcedural <;> rfl

/-- Truncation takes from the counter what was counted for the frames it drops. -/
theorem Sound.truncate_depth (h : n.Sound) (size : Nat) :
    (n.truncate size).proceduralDepth +
      countProcedural (n.stack.take (n.stack.length - size)) = n.proceduralDepth := by
  have hsplit : countProcedural n.stack =
      countProcedural (n.stack.take (n.stack.length - size)) +
        countProcedural (n.stack.drop (n.stack.length - size)) := by
    rw [← countProcedural_append, List.take_append_drop]
  unfold truncate
  split
  · next hle =>
    rw [Nat.sub_eq_zero_of_le hle, List.take_zero]
    rfl
  · simp only [h.procedural]
    omega

theorem Sound.truncate (h : n.Sound) (size : Nat) : (n.truncate size).Sound where
  procedural := by
    have hdepth := h.truncate_depth size
    have hsplit := countProcedural_append (n.stack.take (n.stack.length - size))
      (n.stack.drop (n.stack.length - size))
    rw [List.take_append_drop, ← h.procedural] at hsplit
    rw [truncate_stack]
    omega
  bounded := by
    have := h.bounded
    rw [truncate_stack, List.length_drop]
    omega
  full hover := by
    unfold Nesting.truncate at hover ⊢
    split at hover
    · next hle => rw [if_pos hle]; exact h.full hover
    · exact absurd hover (by simp)
  frames f hf := by
    rw [truncate_stack] at hf
    exact h.frames f (List.mem_of_mem_drop hf)

theorem Sound.pop_depth (h : n.Sound) (hstack : n.stack = f :: rest) :
    n.pop.proceduralDepth + f.isProcedural.toNat = n.proceduralDepth := by
  have hcount := h.procedural
  rw [hstack, countProcedural_cons] at hcount
  simp only [pop, hstack]
  omega

/-- A frame may be closed when no opener inside it was skipped. -/
theorem Sound.pop (h : n.Sound) (hover : n.overflow = 0) : n.pop.Sound := by
  cases hstack : n.stack with
  | nil =>
    have : n.pop = n := by rw [Nesting.pop, hstack]
    rw [this]
    exact h
  | cons f rest =>
    have hdepth := h.pop_depth hstack
    have hcount := h.procedural
    have hbounded := h.bounded
    have hframes := h.frames
    rw [hstack] at hcount hbounded hframes
    rw [countProcedural_cons] at hcount
    have hpop : n.pop.stack = rest := by rw [Nesting.pop, hstack]
    constructor
    case procedural => rw [hpop]; omega
    case bounded =>
      rw [hpop]
      simp only [List.length_cons] at hbounded
      omega
    case full =>
      rw [overflow_pop]
      omega
    case frames =>
      rw [hpop]
      exact fun g hg => hframes g (List.mem_cons_of_mem f hg)

/-- Closing takes from the counter what was counted for the frames it closes. -/
theorem Sound.close?_depth (h : n.Sound) (hclose : n.close? p = some (f, m)) :
    m.proceduralDepth + countProcedural (n.stack.take (n.stack.length - m.stack.length)) =
      n.proceduralDepth := by
  obtain ⟨pre, hstack, -, -, hm⟩ := close?_eq_some hclose
  have htop : (n.truncate (m.stack.length + 1)).stack = f :: m.stack := truncate_append hstack
  have hpop := (h.truncate (m.stack.length + 1)).pop_depth htop
  rw [← hm] at hpop
  have htruncate := h.truncate_depth (m.stack.length + 1)
  have htake : n.stack.take (n.stack.length - m.stack.length) = pre ++ [f] := by
    have hlen : n.stack.length - m.stack.length = (pre ++ [f]).length := by
      rw [hstack]
      simp only [List.length_append, List.length_cons, List.length_nil]
      omega
    rw [hlen, hstack, List.append_cons pre f m.stack, List.take_left]
  have htake' : n.stack.take (n.stack.length - (m.stack.length + 1)) = pre := by
    rw [hstack, List.length_append, List.length_cons, Nat.add_sub_cancel, List.take_left]
  rw [htake, countProcedural_append, countProcedural_cons]
  rw [htake'] at htruncate
  simp only [countProcedural, List.countP_nil] at *
  omega

theorem Sound.close? (h : n.Sound) (hover : n.overflow = 0) (hclose : n.close? p = some (f, m)) :
    m.Sound := by
  obtain ⟨-, -, -, -, hm⟩ := close?_eq_some hclose
  rw [hm]
  exact (h.truncate _).pop (truncate_overflow hover _)

theorem Sound.clear (h : n.Sound) : n.clear.Sound where
  procedural := (h.truncate 0).procedural
  bounded := (h.truncate 0).bounded
  full hover := absurd hover (by simp [Nesting.clear])
  frames := (h.truncate 0).frames

theorem Sound.push (h : n.Sound) (hroom : n.isFull = false) (hf : f.Sound) : (n.push f).Sound := by
  have hlt : n.stack.length < maxDepth := by simpa [isFull] using hroom
  constructor
  case procedural =>
    rw [Nesting.push, countProcedural_cons]
    exact congrArg (· + f.isProcedural.toNat) h.procedural
  case bounded => exact hlt
  case full =>
    intro hover
    have := h.full hover
    omega
  case frames =>
    rintro g (_ | ⟨_, hg⟩)
    · exact hf
    · exact h.frames g hg

/-- The innermost frame may be exchanged for another of the same context. -/
theorem Sound.modifyTop (h : n.Sound) {change : Frame → Frame}
    (hchange : ∀ f, n.top? = some f → f.Sound → (change f).Sound)
    (hcontext : ∀ f, (change f).context = f.context) : (n.modifyTop change).Sound := by
  cases hstack : n.stack with
  | nil =>
    have : n.modifyTop change = n := by rw [Nesting.modifyTop, hstack]
    rw [this]
    exact h
  | cons f rest =>
    have hsame : (change f).isProcedural = f.isProcedural := by
      rw [Frame.isProcedural, hcontext, Frame.isProcedural]
    have hnew : n.modifyTop change = { n with stack := change f :: rest } := by
      rw [Nesting.modifyTop, hstack]
    have hcount := h.procedural
    have hlen := h.bounded
    have hframes := h.frames
    rw [hstack] at hlen hframes
    rw [hstack, countProcedural_cons] at hcount
    rw [hnew]
    constructor
    case procedural =>
      rw [countProcedural_cons, hsame]
      exact hcount
    case bounded => exact hlen
    case full =>
      intro hover
      rw [← h.full hover, hstack]
      rfl
    case frames =>
      rintro g (_ | ⟨_, hg⟩)
      · exact hchange f (by rw [top?, hstack]; rfl) (hframes f List.mem_cons_self)
      · exact hframes g (List.mem_cons_of_mem f hg)

/-- Clauses are written in blocks that do not stay on one line. -/
theorem Sound.setClause (h : n.Sound) (hinline : n.inInline = false) (clause : Option Clause) :
    (n.setClause clause).Sound := by
  cases hstack : n.stack with
  | nil =>
    have : n.setClause clause = { n with rootClause := clause } := by
      rw [Nesting.setClause, hstack]
    rw [this]
    exact ⟨h.procedural, h.bounded, h.full, h.frames⟩
  | cons f rest =>
    have hmodify : n.setClause clause = n.modifyTop fun f => { f with clause := clause } := by
      rw [Nesting.setClause, Nesting.modifyTop, hstack]
    have hf : f.inline = false := by
      rw [inInline, top?, hstack] at hinline
      simpa using hinline
    rw [hmodify]
    refine h.modifyTop (fun g hg hs => ⟨hs.base, fun hi => ?_⟩) fun _ => rfl
    obtain rfl : f = g := by rw [top?, hstack] at hg; simpa using hg
    rw [hf] at hi
    cases hi

end Nesting

end SqlFormat.Layout

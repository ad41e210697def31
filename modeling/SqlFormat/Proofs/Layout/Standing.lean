import Mathlib
import SqlFormat.Proofs.Groups.Stable
import SqlFormat.Proofs.Layout.Closers

/-!
# Openers that stand open

Layout does not note which token has opened a frame. It can be told from the heights of the stack: the
frame above so many others belongs to the last opener that was read with so many frames open, and the
stack has been higher ever since. Openers beyond the limit of frames count for the height as well, so that
the same can be said of them.

Of the frames only the brackets matter here. Whatever a token does, it leaves the lower frames alone, or
adds one frame for itself.

Results: `State.follows_step` (one token), `exists_opener` (every frame has its opener),
`exists_frame_of_standsOpen` (every bracket that stands open has its frame).
-/

namespace SqlFormat

/-- The bracket that a token is. -/
def Token.bracket? (t : Token) : Option String :=
  if t.isBracket then some t.text else none

/-- Brackets are what they look like, and the words that open and close blocks are not taken for
brackets. -/
structure Token.Distinct (lexicon : Lexicon) (t : Token) : Prop where
  paired : t.Paired lexicon
  word : t.kind = .openParen → t.isBracket = false → t.keyText ≠ "(" ∧ t.keyText ≠ "["

theorem Token.Distinct.substitute {dialect : Dialect} {t : Token} (hsound : t.Sound dialect)
    (hpaired : t.Paired dialect.lexicon) (params : Parameters) :
    (params.substitute t).Distinct dialect.lexicon := by
  refine ⟨hpaired.substitute params, fun hkind hbracket => ?_⟩
  have hsame : params.substitute t = t := by
    have hopen : t.kind = .openParen := by
      rw [← hkind, Parameters.substitute]
      split
      · split <;> rfl
      · rfl
    rw [Parameters.substitute, hopen]
    rfl
  rw [hsame] at hkind hbracket ⊢
  have hne := hsound.keyText_ne (by rw [Token.isKeyword_of_paren (.inl hkind), hbracket]; rfl)
  exact ⟨hne "(" (by simp), hne "[" (by simp)⟩

/-- The tokens of a text that are laid out. -/
def tokensOfText (dialect : Dialect) (style : Style) (text : String) : List Token :=
  (tokenize dialect.lexicon text).map style.params.substitute

theorem distinct_of_mem_tokensOfText (dialect : Dialect) (style : Style) (text : String) :
    ∀ t ∈ tokensOfText dialect style text, t.Distinct dialect.lexicon := by
  refine List.forall_mem_map.mpr fun t ht => ?_
  exact .substitute (Lexer.sound_of_mem dialect .start 0 text.toList t ht)
    (paired_of_mem dialect .start 0 text.toList t ht) style.params

namespace Layout

open State (closerKey)

variable {ctx : Context} {tokens : List Token} {t : Token} {i j k m : Nat}

/-! ## The brackets among the frames -/

/-- The bracket that has opened a block, if it was one. -/
def Frame.bracket? (f : Frame) : Option String :=
  if f.key == "(" || f.key == "[" then some f.key else none

theorem Frame.bracket?_eq_some_iff {f : Frame} {key : String} (hkey : key = "(" ∨ key = "[") :
    f.bracket? = some key ↔ f.key = key := by
  unfold bracket?
  rcases hkey with rfl | rfl <;> split <;> simp_all

namespace Nesting

variable {n n' : Nesting}

/-- The brackets of the open blocks, innermost first. -/
def brackets (n : Nesting) : List (Option String) :=
  n.stack.map Frame.bracket?

/-- The number of openers that are open, those without a frame included. -/
def height (n : Nesting) : Nat :=
  n.stack.length + n.overflow

theorem length_brackets (n : Nesting) : n.brackets.length = n.stack.length :=
  List.length_map ..

theorem length_brackets_le (n : Nesting) : n.brackets.length ≤ n.height := by
  rw [length_brackets]
  exact Nat.le_add_right ..

/-- Where there is room for a frame, every opener has one. -/
theorem Sound.height_eq (h : n.Sound) (hroom : n.stack.length < maxDepth) :
    n.overflow = 0 ∧ n.height = n.brackets.length := by
  have hover : n.overflow = 0 := by
    by_contra hne
    have := h.full (Nat.pos_of_ne_zero hne)
    omega
  rw [height, hover, length_brackets]
  exact ⟨rfl, rfl⟩

theorem brackets_push (n : Nesting) (f : Frame) : (n.push f).brackets = f.bracket? :: n.brackets :=
  rfl

theorem brackets_modifyTop (n : Nesting) {change : Frame → Frame}
    (hchange : ∀ f ∈ n.top?, (change f).bracket? = f.bracket?) :
    (n.modifyTop change).brackets = n.brackets := by
  cases hstack : n.stack with
  | nil => rw [modifyTop, hstack]
  | cons f below =>
    rw [brackets, modifyTop_stack_cons hstack, brackets, hstack, List.map_cons, List.map_cons,
      hchange f (by rw [top?, hstack]; rfl)]

theorem Goes.brackets_eq (h : n.Goes n') : n'.brackets = n.brackets := by
  rcases h.stack with hsame | ⟨f, g, below, hn, hn', -, hkey⟩
  · rw [brackets, brackets, hsame]
  · rw [brackets, brackets, hn, hn', List.map_cons, List.map_cons, Frame.bracket?, Frame.bracket?, hkey]

end Nesting

/-! ## What a token does to the brackets -/

/-- What is open after a token: what was open before, less the innermost blocks, or all of it and the
block that the token opens. -/
def Nesting.Follows (t : Token) (n n' : Nesting) : Prop :=
  n'.brackets <:+ n.brackets ∨
    t.kind = .openParen ∧ n.isFull = false ∧ n'.brackets = t.bracket? :: n.brackets

theorem Nesting.follows_of_eq {n n' : Nesting} (h : n'.brackets = n.brackets) (t : Token) :
    n.Follows t n' :=
  .inl (h ▸ List.suffix_rfl)

namespace Sight

variable {v : Sight} {item : Item}

theorem follows_semicolon (v : Sight) (t : Token) (lines : Nat) :
    v.nesting.Follows t (v.semicolon lines).nesting := by
  have hclear : v.nesting.clear.brackets <:+ v.nesting.brackets := by
    rw [Nesting.brackets, Nesting.clear, Nesting.truncate_stack, Nat.sub_zero, List.drop_length]
    exact List.nil_suffix
  unfold semicolon
  simp only
  split
  · split
    · next n hblock =>
      obtain ⟨pre, f, rest, hstack, -, -, -, hrest⟩ := Nesting.toProcedural?_eq_some hblock
      have hsuffix : n.brackets <:+ v.nesting.brackets := by
        rw [Nesting.brackets, Nesting.brackets, hstack, hrest, List.map_append]
        exact List.suffix_append ..
      have hsame : (n.modifyTop fun f => { f with clause := none, headerEnd := none }).brackets =
          n.brackets := Nesting.brackets_modifyTop n fun _ _ => rfl
      exact .inl (hsame ▸ hsuffix)
    · exact .inl hclear
  · exact .inl hclear

theorem follows_procedural (hkind : item.token.kind = .openParen) (hfull : v.nesting.isFull = false)
    (hbracket : item.token.isBracket = false)
    (hword : item.token.keyText ≠ "(" ∧ item.token.keyText ≠ "[") (headerEnd : Option String) :
    v.nesting.Follows item.token (v.procedural item.token.keyText headerEnd).nesting := by
  have hblock : v.nesting.Follows item.token (v.block item.token.keyText headerEnd).nesting := by
    refine .inr ⟨hkind, hfull, ?_⟩
    simp [block, Nesting.brackets_push, State.frameAt, Frame.bracket?, Token.bracket?, hbracket, hword]
  unfold procedural
  split
  · next frame hframe =>
    split
    · next hcontinued =>
      -- neither the key of the frame nor its new one is a bracket
      rw [Bool.and_eq_true, beq_iff_eq, beq_iff_eq] at hcontinued
      refine Nesting.follows_of_eq (Nesting.brackets_modifyTop _ fun f hf => ?_) item.token
      obtain ⟨⟨below, hstack⟩, -⟩ := Nesting.topProcedural?_eq_some.mp hframe
      obtain rfl : f = frame := by
        rw [Nesting.top?, hstack] at hf
        exact (Option.some.inj hf).symm
      simp [Frame.bracket?, hcontinued.1, hcontinued.2]
    · exact hblock
  · exact hblock

theorem follows_opener (hkind : item.token.kind = .openParen)
    (hdistinct : item.token.Distinct ctx.dialect.lexicon) :
    v.nesting.Follows item.token (v.opener ctx item).nesting := by
  have hsame : v.nesting.Follows item.token v.content.nesting := Nesting.follows_of_eq rfl _
  unfold opener
  split
  · exact Nesting.follows_of_eq rfl _
  · next hfull =>
    rw [Bool.not_eq_true] at hfull
    split
    · next hbracket =>
      refine .inr ⟨hkind, hfull, ?_⟩
      have htext := hdistinct.paired.opening (by simp [isOpeningBracket, hkind, hbracket])
      simp [bracket, Nesting.brackets_push, State.frameAt, Frame.bracket?, Token.bracket?, hbracket, htext]
    · next hbracket =>
      rw [Bool.not_eq_true] at hbracket
      have hword := hdistinct.word hkind hbracket
      split
      · exact hsame
      · split
        · exact follows_procedural hkind hfull hbracket hword _
        · refine .inr ⟨hkind, hfull, ?_⟩
          simp [expression, Nesting.brackets_push, State.frameAt, Frame.bracket?, Token.bracket?,
            hbracket, hword]

theorem follows_closer (v : Sight) (lexicon : Lexicon) (token : Token) :
    v.nesting.Follows token (v.closer lexicon token).nesting := by
  unfold closer
  split
  · exact Nesting.follows_of_eq rfl _
  · split
    · exact Nesting.follows_of_eq rfl _
    · next f n hclose =>
      obtain ⟨pre, hstack, -⟩ := Nesting.close?_eq_some hclose
      refine .inl ?_
      rw [Nesting.brackets, Nesting.brackets, hstack, List.map_append, List.map_cons]
      exact (List.suffix_cons ..).trans (List.suffix_append ..)

/-- What is open after a closing bracket: it is counted against an opener without a frame, or it takes
away the innermost frame of its form with all that is inside, or it finds no such frame. -/
theorem brackets_closer (v : Sight) (hsound : v.nesting.Sound) (lexicon : Lexicon)
    (hbracket : t.isBracket = true) (htext : t.text = ")" ∨ t.text = "]") :
    let n := (v.closer lexicon t).nesting
    let form := some (Groups.openingOf t.text)
    0 < v.nesting.overflow ∧ n.stack = v.nesting.stack ∧ n.height + 1 = v.nesting.height ∨
      v.nesting.overflow = 0 ∧ (form ∉ v.nesting.brackets ∧ n.stack = v.nesting.stack ∨
        ∃ pre, v.nesting.brackets = pre ++ form :: n.brackets ∧ form ∉ pre ∧
          n.height = n.brackets.length) := by
  have hcloses : ∀ f : Frame, lexicon.closes (closerKey t) f.key = true ↔
      f.bracket? = some (Groups.openingOf t.text) := by
    intro f
    have hkey : Groups.openingOf t.text = "(" ∨ Groups.openingOf t.text = "[" := by
      rcases htext with h | h <;> rw [h]
      · exact .inl rfl
      · exact .inr rfl
    rw [closerKey, if_pos hbracket, closes_bracket _ htext, beq_iff_eq, Frame.bracket?_eq_some_iff hkey]
  have hfail : ∀ frames : List Frame, (∀ f ∈ frames, lexicon.closes (closerKey t) f.key = false) →
      some (Groups.openingOf t.text) ∉ frames.map Frame.bracket? := by
    intro frames hframes hmem
    obtain ⟨f, hf, hform⟩ := List.mem_map.mp hmem
    exact absurd ((hcloses f).mpr hform) (by simp [hframes f hf])
  unfold closer
  split
  · next hover =>
    refine .inl ⟨hover, rfl, ?_⟩
    simp only [Nesting.height]
    omega
  · next hover =>
    refine .inr ⟨Nat.eq_zero_of_not_pos hover, ?_⟩
    split
    · next hclose => exact .inl ⟨hfail _ (Nesting.close?_eq_none.mp hclose), rfl⟩
    · next f n hclose =>
      obtain ⟨pre, hstack, hpre, hf, -⟩ := Nesting.close?_eq_some hclose
      have hroom : n.stack.length < maxDepth := by
        have hbounded := hsound.bounded
        rw [hstack, List.length_append, List.length_cons] at hbounded
        omega
      have hn : n.Sound := hsound.close? (Nat.eq_zero_of_not_pos hover) hclose
      refine .inr ⟨pre.map Frame.bracket?, ?_, hfail pre hpre, (hn.height_eq hroom).2⟩
      rw [Nesting.brackets, hstack, List.map_append, List.map_cons, (hcloses f).mp hf, Nesting.brackets]

/-- Every decision leaves the lower frames alone. -/
theorem follows_decision (ctx : Context) (hsound : v.nesting.Sound)
    (hdistinct : item.token.Distinct ctx.dialect.lexicon) :
    v.nesting.Follows item.token (v.decision ctx item).nesting := by
  have hgoes : ∀ {d : State.Decision}, v.nesting.Goes d.nesting ∧ v.Quiet d →
      v.nesting.Follows item.token d.nesting := fun h => Nesting.follows_of_eq h.1.brackets_eq _
  unfold decision
  cases hkind : item.token.kind with
  | reservedTopLevel => exact hgoes (v.goes_clause _)
  | reservedTopLevelNoIndent => exact hgoes (v.goes_clause _)
  | reservedNewline => exact hgoes (v.goes_keyword _ _)
  | openParen => exact follows_opener hkind hdistinct
  | closeParen => exact v.follows_closer _ _
  | operator =>
    simp only
    split
    · exact v.follows_semicolon _ _
    · split
      · exact hgoes v.goes_comma
      · exact hgoes v.goes_content
  | reserved =>
    simp only
    split
    · next hends => exact hgoes (goes_headerEnd hsound hends)
    · exact hgoes v.goes_content
  | whitespace | word | string | number | lineComment | blockComment | indexedPlaceholder
    | namedPlaceholder => exact hgoes v.goes_content

end Sight

/-- **What one token does**: it leaves the lower frames alone, or adds one frame for itself. -/
theorem State.follows_step (ctx : Context) {s : State} {item : Item} (hsound : s.nesting.Sound)
    (hdistinct : item.token.Distinct ctx.dialect.lexicon) :
    s.nesting.Follows item.token (s.step ctx item).nesting := by
  cases hcomment : item.token.kind.isComment with
  | true =>
    rw [step, if_pos hcomment, comment_nesting]
    exact Nesting.follows_of_eq rfl _
  | false =>
    rw [(step_decision ctx s hcomment).1]
    exact Sight.follows_decision ctx hsound hdistinct

/-! ## The state before a token -/

/-- The state before the token with `k` tokens before it, white space among them. -/
def stateBefore (ctx : Context) (tokens : List Token) (k : Nat) : State :=
  stateAt ctx (Item.ofTokens tokens) (Groups.rank tokens k)

theorem sound_stateBefore (ctx : Context) (tokens : List Token) (k : Nat) :
    (stateBefore ctx tokens k).nesting.Sound :=
  State.run_sound ctx Nesting.sound_start _

/-- White space changes nothing, and every other token is an item that is laid out. -/
theorem stateBefore_succ (ctx : Context) (ht : tokens[k]? = some t) :
    t.kind = .whitespace ∧ stateBefore ctx tokens (k + 1) = stateBefore ctx tokens k ∨
      ∃ item : Item, item.token = t ∧
        stateBefore ctx tokens (k + 1) = (stateBefore ctx tokens k).step ctx item := by
  by_cases hkind : t.kind = .whitespace
  · have hrank : Groups.rank tokens (k + 1) = Groups.rank tokens k := by
      rw [Groups.rank, Groups.rank, List.take_add_one, ht, Option.toList_some, Groups.solid,
        List.filter_append]
      simp [hkind, Groups.solid]
    exact .inl ⟨hkind, by rw [stateBefore, hrank, stateBefore]⟩
  · have hdrop : Groups.solid (tokens.drop k) = t :: Groups.solid (tokens.drop (k + 1)) := by
      obtain ⟨hlt, rfl⟩ := List.getElem?_eq_some_iff.mp ht
      rw [List.drop_eq_getElem_cons hlt, Groups.solid_cons_of_pos hkind]
    have hsolid : (Groups.solid tokens)[Groups.rank tokens k]? = some t := by
      rw [← Nat.add_zero (Groups.rank tokens k), ← List.getElem?_drop, ← Groups.solid_drop, hdrop]
      rfl
    have hitems : (Item.ofTokens tokens).map (·.token) = Groups.solid tokens :=
      Item.map_token_ofTokens tokens
    rw [← hitems, List.getElem?_map] at hsolid
    obtain ⟨item, hitem, rfl⟩ := Option.map_eq_some_iff.mp hsolid
    refine .inr ⟨item, rfl, ?_⟩
    rw [stateBefore, Groups.rank_succ ht hkind, stateAt_succ ctx hitem, stateBefore]

theorem follows_stateBefore (ctx : Context) (ht : tokens[k]? = some t)
    (hdistinct : t.Distinct ctx.dialect.lexicon) :
    (stateBefore ctx tokens k).nesting.Follows t (stateBefore ctx tokens (k + 1)).nesting := by
  rcases stateBefore_succ ctx ht with ⟨-, hsame⟩ | ⟨item, rfl, hstep⟩
  · rw [hsame]
    exact Nesting.follows_of_eq rfl t
  · rw [hstep]
    exact State.follows_step ctx (sound_stateBefore ctx tokens k) hdistinct

/-! ## Heights -/

/-- From behind `i` up to `j`, a height is above that at `i`. -/
def Above (height : Nat → Nat) (i j : Nat) : Prop :=
  ∀ k < j + 1, i < k → height i < height k

instance (height : Nat → Nat) (i j : Nat) : Decidable (Above height i j) :=
  inferInstanceAs (Decidable (∀ k < j + 1, i < k → _))

namespace Above

variable {height : Nat → Nat}

theorem self (height : Nat → Nat) (i : Nat) : Above height i i :=
  fun k hk hik => absurd hik (by omega)

theorem mono (h : Above height i j) (hk : k ≤ j) : Above height i k :=
  fun m hm => h m (by omega)

theorem lt (h : Above height i j) (hik : i < k) (hkj : k ≤ j) : height i < height k :=
  h k (by omega) hik

theorem succ (h : Above height i j) (hlt : height i < height (j + 1)) : Above height i (j + 1) := by
  intro k hk hik
  rcases Nat.lt_succ_iff_lt_or_eq.mp hk with hk | rfl
  · exact h k hk hik
  · exact hlt

/-- Of two places above which a height has stayed, the earlier is the lower. -/
theorem lt_iff (hi : Above height i k) (hj : Above height j k) (hik : i ≤ k) (hjk : j ≤ k) :
    height i < height j ↔ i < j := by
  refine ⟨fun hlt => ?_, fun hij => hi.lt hij hjk⟩
  by_contra hnot
  rcases Nat.lt_or_eq_of_le (Nat.not_lt.mp hnot) with hji | rfl
  · exact absurd (hj.lt hji hik) (Nat.lt_asymm hlt)
  · exact absurd hlt (Nat.lt_irrefl _)

theorem eq_of_height_eq (hi : Above height i k) (hj : Above height j k) (hik : i ≤ k) (hjk : j ≤ k)
    (heq : height i = height j) : i = j := by
  have hij := (hi.lt_iff hj hik hjk).not
  have hji := (hj.lt_iff hi hjk hik).not
  omega

end Above

/-! ## Openers and their frames -/

/-- The number of openers that are open before a token. -/
def heightAt (ctx : Context) (tokens : List Token) (k : Nat) : Nat :=
  (stateBefore ctx tokens k).nesting.height

/-- The opener with `i` tokens before it is still open when the token with `j` tokens before it is
read. -/
def StandsOpen (ctx : Context) (tokens : List Token) (i j : Nat) : Prop :=
  Above (heightAt ctx tokens) i j

instance (ctx : Context) (tokens : List Token) (i j : Nat) :
    Decidable (StandsOpen ctx tokens i j) :=
  inferInstanceAs (Decidable (Above _ i j))

/-- **Every frame has its opener**: an opener that was read with as many openers open as there are frames
below, and that is still open. -/
theorem exists_opener (hdistinct : ∀ t ∈ tokens, t.Distinct ctx.dialect.lexicon) (hk : k ≤ tokens.length)
    {pre below : List (Option String)} {bracket : Option String}
    (h : (stateBefore ctx tokens k).nesting.brackets = pre ++ bracket :: below) :
    ∃ i < k, ∃ t, tokens[i]? = some t ∧ t.kind = .openParen ∧ t.bracket? = bracket ∧
      heightAt ctx tokens i = below.length ∧ StandsOpen ctx tokens i k := by
  induction k generalizing pre with
  | zero =>
    have hnil : (stateBefore ctx tokens 0).nesting.brackets = [] := rfl
    simp [hnil] at h
  | succ k ih =>
    have ht : tokens[k]? = some tokens[k] := List.getElem?_eq_getElem hk
    -- the height is above the frame, so that its opener stays open
    have hheight : below.length < heightAt ctx tokens (k + 1) := by
      refine Nat.lt_of_lt_of_le ?_ (Nesting.length_brackets_le _)
      rw [h, List.length_append, List.length_cons]
      omega
    have hold : ∀ pre', (stateBefore ctx tokens k).nesting.brackets = pre' ++ bracket :: below →
        ∃ i < k + 1, ∃ t, tokens[i]? = some t ∧ t.kind = .openParen ∧ t.bracket? = bracket ∧
          heightAt ctx tokens i = below.length ∧ StandsOpen ctx tokens i (k + 1) := by
      intro pre' hbefore
      obtain ⟨i, hi, u, hu, hkind, hbracket, hlevel, hstands⟩ := ih (by omega) hbefore
      exact ⟨i, by omega, u, hu, hkind, hbracket, hlevel, hstands.succ (hlevel ▸ hheight)⟩
    rcases follows_stateBefore ctx ht (hdistinct _ (List.getElem_mem hk)) with
      ⟨dropped, hdropped⟩ | ⟨hkind, hfull, hpush⟩
    · exact hold (dropped ++ pre) (by rw [← hdropped, h, List.append_assoc])
    · rw [h] at hpush
      cases pre with
      | cons first pre => exact hold pre (List.cons.inj hpush).2.symm
      | nil =>
        obtain ⟨hbracket, hbelow⟩ := List.cons.inj hpush
        have hroom : (stateBefore ctx tokens k).nesting.stack.length < maxDepth := by
          simpa [Nesting.isFull] using hfull
        have hlevel : heightAt ctx tokens k = below.length := by
          rw [hbelow, heightAt, ((sound_stateBefore ctx tokens k).height_eq hroom).2]
        exact ⟨k, Nat.lt_succ_self k, tokens[k], ht, hkind, hbracket.symm, hlevel,
          (Above.self _ k).succ (hlevel ▸ hheight)⟩

/-- **Every bracket that stands open has its frame**, if it is not beyond the limit. -/
theorem exists_frame_of_standsOpen (hdistinct : ∀ t ∈ tokens, t.Distinct ctx.dialect.lexicon)
    (hk : k ≤ tokens.length) (ht : tokens[i]? = some t) (hik : i < k) (h : StandsOpen ctx tokens i k)
    (hframe : heightAt ctx tokens i < (stateBefore ctx tokens k).nesting.stack.length) :
    ∃ pre below, (stateBefore ctx tokens k).nesting.brackets = pre ++ t.bracket? :: below ∧
      below.length = heightAt ctx tokens i := by
  obtain ⟨pre, bracket, below, hsplit, hbelow⟩ :
      ∃ pre bracket below, (stateBefore ctx tokens k).nesting.brackets = pre ++ bracket :: below ∧
        below.length = heightAt ctx tokens i := by
    rw [← Nesting.length_brackets] at hframe
    generalize (stateBefore ctx tokens k).nesting.brackets = brackets at hframe
    obtain ⟨n, hn⟩ := Nat.exists_eq_add_of_lt hframe
    refine ⟨brackets.take n, brackets[n], brackets.drop (n + 1), ?_, ?_⟩
    · rw [← List.drop_eq_getElem_cons, List.take_append_drop]
    · rw [List.length_drop]
      omega
  obtain ⟨j, hj, u, hu, -, hbracket, hlevel, hstands⟩ := exists_opener hdistinct hk hsplit
  obtain rfl : i = j := h.eq_of_height_eq hstands hik.le hj.le (hbelow.symm.trans hlevel.symm)
  obtain rfl : u = t := Option.some.inj (hu.symm.trans ht)
  exact ⟨pre, below, hbracket ▸ hsplit, hbelow⟩

end Layout

end SqlFormat

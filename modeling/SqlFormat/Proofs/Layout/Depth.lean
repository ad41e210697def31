import Mathlib
import SqlFormat.Proofs.Layout.Anchors
import SqlFormat.Proofs.Layout.Blocks
import SqlFormat.Proofs.Layout.Parts
import SqlFormat.Proofs.Layout.Quiet

/-!
# How far lines are indented

A frame is indented like the line of its opener, which may be one level deeper than the clauses of
the frame below, so that each frame adds two levels at most. This is so only because no line starts
in a block that is kept on one line: such blocks are the innermost ones, and nothing has to start a
line until they are closed.

Openers beyond the limit of frames stand inside all frames, and their closers are counted without
looking at their form. Inside a block that is kept on one line, a closer of another form is counted
against such an opener, and the block stays open behind the closer that was found for it. Wherever
that does not happen, all lines are indented less than `2 * maxDepth + 2` levels.

Results: `Turn.level` (one token), `Levelled.run` (all of them), `indent_lt_of_suits`.
-/

namespace SqlFormat

open Layout Text Lexer

/-! ## Brackets and words -/

/-- Brackets are what they look like, and words do not close them. -/
structure Token.Paired (lexicon : Lexicon) (t : Token) : Prop where
  opening : isOpeningBracket t = true → t.text = "(" ∨ t.text = "["
  closing : t.kind = .closeParen → t.isBracket = true → t.text = ")" ∨ t.text = "]"
  word : t.kind = .closeParen → t.isBracket = false → ∀ key, key = "(" ∨ key = "[" →
    lexicon.closes t.keyText key = false

theorem Dialect.closers_words (dialect : Dialect) :
    ∀ entry ∈ dialect.lexicon.closers, "(" ∉ entry.2 ∧ "[" ∉ entry.2 := by
  cases dialect <;> decide

theorem closes_of_word (dialect : Dialect) {closer key : String} (hround : closer ≠ ")")
    (hsquare : closer ≠ "]") (hkey : key = "(" ∨ key = "[") :
    dialect.lexicon.closes closer key = false := by
  rw [Lexicon.closes, if_neg (by simpa using hround), if_neg (by simpa using hsquare)]
  cases hlookup : dialect.lexicon.closers.lookup closer with
  | none => rfl
  | some openers =>
    obtain ⟨l₁, l₂, hmem, -⟩ := List.lookup_eq_some_iff.mp hlookup
    have hwords := dialect.closers_words (closer, openers) (by rw [hmem]; simp)
    rcases hkey with rfl | rfl
    · simpa using hwords.1
    · simpa using hwords.2

theorem closes_bracket (lexicon : Lexicon) {closer : String} (h : closer = ")" ∨ closer = "]")
    (key : String) : lexicon.closes closer key = (key == Groups.openingOf closer) := by
  rcases h with rfl | rfl <;> rfl

/-- The key of a keyword starts with a letter. -/
theorem Phrased.keyText_head {t : Token} {ws : List (List Char)}
    (h : Phrased t.text.toList ws) : t.keyText.toList.head?.any Char.isAlpha = true := by
  have hkey : t.keyText.toList = ([' '].intercalate ws).map KeywordCase.lower.letter := by
    rw [Token.keyText, phraseKey, lowerAscii, ← t.text.ofList_toList, toList_normalizePhrase h,
      String.toList_ofList]
    rfl
  rw [hkey]
  exact (h.respaced .lower).head.2

theorem Reads.paired {dialect : Dialect} {memory : Memory} {text : List Char} {found : Lexeme}
    (h : Reads dialect.lexicon memory text found) (hne : text ≠ []) (pos : Nat) :
    (found.token text pos).Paired dialect.lexicon where
  opening hopen := by
    have hbracket : (found.token text pos).isBracket = true := by
      simp only [isOpeningBracket, Bool.and_eq_true] at hopen
      exact hopen.2
    obtain ⟨c, cs, rfl, ⟨rfl, rfl⟩ | ⟨rfl, rfl⟩ | ⟨_, rfl, rfl⟩ | ⟨_, rfl, rfl⟩⟩ :=
      bracket?_eq_some (h.bracket? pos hbracket)
    · exact .inl rfl
    · cases hopen
    · exact .inr rfl
    · cases hopen
  closing hkind hbracket := by
    obtain ⟨c, cs, rfl, ⟨rfl, rfl⟩ | ⟨rfl, rfl⟩ | ⟨_, rfl, rfl⟩ | ⟨_, rfl, rfl⟩⟩ :=
      bracket?_eq_some (h.bracket? pos hbracket)
    · cases hkind
    · exact .inl rfl
    · cases hkind
    · exact .inr rfl
  word hkind hbracket key hkey := by
    obtain ⟨ws, hws⟩ := (h.sound hne pos).keyword (by rw [Token.isKeyword, hkind, hbracket]; rfl)
    have hhead := Phrased.keyText_head hws
    refine closes_of_word dialect ?_ ?_ hkey
    · intro heq
      rw [heq] at hhead
      exact absurd hhead (by decide)
    · intro heq
      rw [heq] at hhead
      exact absurd hhead (by decide)

theorem paired_of_mem (dialect : Dialect) (memory : Memory) (pos : Nat) (text : List Char) :
    ∀ t ∈ tokensFrom dialect.lexicon memory pos text, t.Paired dialect.lexicon :=
  forall_mem_of_cut dialect (fun _ pos _ _ hne h => Reads.paired h hne pos) memory pos text

/-- Values are put in for placeholders only. -/
theorem Token.Paired.substitute {lexicon : Lexicon} {t : Token} (h : t.Paired lexicon)
    (params : Parameters) : (params.substitute t).Paired lexicon := by
  unfold Parameters.substitute
  split
  · next hplaceholder =>
    have hkind : t.kind ≠ .openParen ∧ t.kind ≠ .closeParen := by
      constructor <;> (intro hkind; rw [hkind] at hplaceholder; cases hplaceholder)
    split
    · exact ⟨fun hopen => absurd hopen (by simp [isOpeningBracket, hkind.1]),
        fun hclose => absurd hclose hkind.2, fun hclose => absurd hclose hkind.2⟩
    · exact h
  · exact h

/-! ## Frames -/

namespace Layout

/-- Each frame is indented two levels at most for each frame below it, and one more. -/
def Low : List Frame → Prop
  | [] => True
  | f :: below => f.outer ≤ 2 * below.length + 1 ∧ Low below

theorem Low.of_append {above below : List Frame} (h : Low (above ++ below)) : Low below := by
  induction above with
  | nil => exact h
  | cons f above ih => exact ih h.2

theorem low_modifyTop {n : Nesting} (h : Low n.stack) {change : Frame → Frame}
    (hchange : ∀ f, (change f).outer = f.outer) : Low (n.modifyTop change).stack := by
  cases hstack : n.stack with
  | nil => simp [Nesting.modifyTop, hstack, Low]
  | cons f rest =>
    rw [Nesting.modifyTop_stack_cons hstack]
    rw [hstack] at h
    exact ⟨(hchange f).symm ▸ h.1, h.2⟩

theorem length_modifyTop (n : Nesting) (change : Frame → Frame) :
    (n.modifyTop change).stack.length = n.stack.length := by
  cases hstack : n.stack with
  | nil => simp [Nesting.modifyTop, hstack]
  | cons f rest => rw [Nesting.modifyTop_stack_cons hstack]; rfl

/-- The openers without a frame that are open after a token, the last one first: those that were open
before it, less the ones that are not counted any more, or all of them and the token. -/
def skippedAfter (t : Token) (n n' : Nesting) (skipped : List String) : List String :=
  if n.overflow < n'.overflow then State.closerKey t :: skipped
  else skipped.drop (n.overflow - n'.overflow)

section Skipped

variable {n n' : Nesting} {skipped : List String}

theorem skippedAfter_of_eq (h : n'.overflow = n.overflow) (t : Token) (skipped : List String) :
    skippedAfter t n n' skipped = skipped := by
  rw [skippedAfter, h, if_neg (Nat.lt_irrefl _), Nat.sub_self, List.drop_zero]

theorem skippedAfter_nil (h : n'.overflow = 0) (t : Token) : skippedAfter t n n' [] = [] := by
  rw [skippedAfter, h, if_neg (Nat.not_lt_zero _), List.drop_nil]

theorem length_skippedAfter (h : skipped.length = n.overflow) (hle : n'.overflow ≤ n.overflow + 1)
    (t : Token) : (skippedAfter t n n' skipped).length = n'.overflow := by
  unfold skippedAfter
  split
  · rw [List.length_cons]
    omega
  · rw [List.length_drop]
    omega

end Skipped

/-- The open blocks before some tokens: the innermost ones are kept on one line, and nothing has to
start a line until they and the openers without a frame in them are closed. -/
structure Stacked (n : Nesting) (skipped : List String) (tokens : List Token)
    (inner outer : List Frame) : Prop where
  stack : n.stack = inner ++ outer
  inline : ∀ f ∈ inner, f.inline = true
  block : ∀ f ∈ outer, f.inline = false
  bracket : inner ≠ [] → ∀ key ∈ skipped ++ inner.map (·.key), key = "(" ∨ key = "["
  quiet : inner ≠ [] → Groups.Quiet (skipped ++ inner.map (·.key)) tokens
  low : Low n.stack

namespace Stacked

variable {n m : Nesting} {lexicon : Lexicon} {t : Token} {tokens : List Token} {key : String}
  {skipped skipped' : List String} {f : Frame} {inner outer pre : List Frame}

theorem inner_eq_nil (h : Stacked n skipped tokens inner outer) (hn : n.inInline = false) :
    inner = [] := by
  cases inner with
  | nil => rfl
  | cons f inner =>
    rw [Nesting.inInline, Nesting.top?, h.stack] at hn
    have hinline := h.inline f (by simp)
    simp [hinline] at hn

theorem inInline_eq_false (h : Stacked n skipped tokens [] outer) : n.inInline = false := by
  rw [Nesting.inInline, Nesting.top?, h.stack]
  cases outer with
  | nil => rfl
  | cons f outer => exact h.block f (by simp)

theorem inInline_eq_true (h : Stacked n skipped tokens inner outer) (hne : inner ≠ []) :
    n.inInline = true := by
  cases hinline : n.inInline with
  | true => rfl
  | false => exact absurd (h.inner_eq_nil hinline) hne

/-- Where nothing is kept on one line, the tokens do not matter. -/
theorem of_block (hblock : ∀ f ∈ n.stack, f.inline = false) (hlow : Low n.stack) :
    Stacked n skipped tokens [] n.stack :=
  ⟨rfl, by simp, hblock, fun h => absurd rfl h, fun h => absurd rfl h, hlow⟩

theorem blocks (h : Stacked n skipped tokens [] outer) : ∀ f ∈ n.stack, f.inline = false := by
  rw [h.stack]
  exact h.block

theorem opened_ne_nil (hne : inner ≠ []) : skipped ++ inner.map (·.key) ≠ [] := by
  simp [hne]

/-- What has to start a line is in no block that is kept on one line. -/
theorem inner_of_breaksLine (h : Stacked n skipped (t :: tokens) inner outer)
    (ht : t.breaksLine = true) : inner = [] := by
  by_contra hne
  have := ((h.quiet hne).cons (opened_ne_nil hne)).1
  rw [ht] at this
  cases this

/-- A token that leaves the frames alone: what is open in blocks on one line is followed. -/
theorem follow (h : Stacked n skipped (t :: tokens) inner outer) (hstack : m.stack = n.stack)
    (hopened : inner ≠ [] → Groups.openAfter (skipped ++ inner.map (·.key)) t =
      skipped' ++ inner.map (·.key))
    (hbracket : inner ≠ [] → ∀ key ∈ skipped', key = "(" ∨ key = "[") :
    Stacked m skipped' tokens inner outer := by
  refine ⟨hstack.trans h.stack, h.inline, h.block, fun hne key hkey => ?_, fun hne => ?_,
    hstack ▸ h.low⟩
  · rcases List.mem_append.mp hkey with hkey | hkey
    · exact hbracket hne key hkey
    · exact h.bracket hne key (List.mem_append_right _ hkey)
  · have := ((h.quiet hne).cons (opened_ne_nil hne)).2
    rwa [hopened hne] at this

/-- A token that opens and closes nothing. -/
theorem skip (h : Stacked n skipped (t :: tokens) inner outer)
    (ht : inner ≠ [] → Groups.openAfter (skipped ++ inner.map (·.key)) t =
      skipped ++ inner.map (·.key)) : Stacked n skipped tokens inner outer :=
  h.follow rfl ht fun hne key hkey => h.bracket hne key (List.mem_append_left _ hkey)

theorem skip_of_not_bracket (h : Stacked n skipped (t :: tokens) inner outer)
    (ht : t.isBracket = false) : Stacked n skipped tokens inner outer :=
  h.skip fun _ => by rw [Groups.openAfter, if_neg (by simp [ht])]

theorem skip_of_operator (h : Stacked n skipped (t :: tokens) inner outer) {op : String}
    (ht : t.isOperator op = true) : Stacked n skipped tokens inner outer := by
  refine h.skip_of_not_bracket ?_
  have hkind : t.kind = .operator := by
    simp only [Token.isOperator, Bool.and_eq_true, beq_iff_eq] at ht
    exact ht.1
  simp [Token.isBracket, hkind]

/-- A frame that is not kept on one line is inside no such frame. -/
theorem block_of_append (h : Stacked n skipped tokens inner outer) {rest : List Frame}
    (hstack : n.stack = pre ++ f :: rest) (hf : f.inline = false) :
    ∀ g ∈ f :: rest, g.inline = false := by
  rw [h.stack, List.append_eq_append_iff] at hstack
  rcases hstack with ⟨as, -, houter⟩ | ⟨bs, hinner, hrest⟩
  · intro g hg
    exact h.block g (by rw [houter]; exact List.mem_append_right _ hg)
  · cases bs with
    | nil =>
      rw [List.nil_append] at hrest
      rw [hrest]
      exact h.block
    | cons b bs =>
      obtain ⟨rfl, -⟩ := List.cons.inj hrest
      rw [h.inline f (by rw [hinner]; simp)] at hf
      cases hf

/-- A frame that is kept on one line is one of the innermost. -/
theorem inner_of_append (h : Stacked n skipped tokens inner outer) {rest : List Frame}
    (hstack : n.stack = pre ++ f :: rest) (hf : f.inline = true) :
    ∃ inner', inner = pre ++ f :: inner' ∧ rest = inner' ++ outer := by
  rw [h.stack, List.append_eq_append_iff] at hstack
  rcases hstack with ⟨as, -, houter⟩ | ⟨bs, hinner, hrest⟩
  · rw [h.block f (by rw [houter]; simp)] at hf
    cases hf
  · cases bs with
    | nil =>
      rw [List.nil_append] at hrest
      rw [h.block f (by rw [← hrest]; simp)] at hf
      cases hf
    | cons b bs =>
      obtain ⟨rfl, htail⟩ := List.cons.inj hrest
      exact ⟨bs, hinner, htail⟩

/-- Counting values has no bearing on lines. -/
theorem modifyValue (h : Stacked n skipped tokens inner outer) (slot : Option Nat) :
    ∃ inner' outer', Stacked (n.modifyTop fun f => { f with valueSlot := slot }) skipped tokens
      inner' outer' ∧ outer'.length = outer.length := by
  have hlow : Low (n.modifyTop fun f => { f with valueSlot := slot }).stack :=
    low_modifyTop h.low fun _ => rfl
  cases inner with
  | nil =>
    refine ⟨[], _, of_block ?_ hlow, by rw [length_modifyTop, h.stack, List.nil_append]⟩
    exact Nesting.forall_modifyTop (q := fun f => f.inline = false) h.blocks fun _ hf => hf
  | cons f inner =>
    have hopened := List.cons_ne_nil f inner
    refine ⟨{ f with valueSlot := slot } :: inner, outer,
      ⟨?_, ?_, h.block, fun _ => h.bracket hopened, fun _ => h.quiet hopened, hlow⟩, rfl⟩
    · rw [Nesting.modifyTop_stack_cons h.stack]
      rfl
    · rintro g (_ | ⟨_, hg⟩)
      · exact h.inline f (by simp)
      · exact h.inline g (List.mem_cons_of_mem f hg)

/-! ### Openers and closers in a block on one line -/

/-- A closer that finds no opener. -/
theorem stray (h : Stacked n [] (t :: tokens) inner outer) (ht : t.Paired lexicon)
    (hkind : t.kind = .closeParen)
    (hnone : ∀ f ∈ n.stack, lexicon.closes (State.closerKey t) f.key = false) :
    Stacked n [] tokens inner outer := by
  cases hbracket : t.isBracket with
  | false => exact h.skip_of_not_bracket hbracket
  | true =>
    have htext := ht.closing hkind hbracket
    refine h.skip fun _ => Groups.openAfter_of_absent hbracket
      (by rcases htext with h | h <;> rw [h] <;> rfl) ?_
    refine List.forall_mem_map.mpr fun f hf heq => ?_
    have hnot := hnone f (by rw [h.stack]; exact List.mem_append_left _ hf)
    rw [State.closerKey, if_pos hbracket, closes_bracket _ htext, heq] at hnot
    simp at hnot

/-- In a block on one line, an opener is a bracket. -/
theorem openAfter_opener (h : Stacked n skipped (t :: tokens) inner outer) (ht : t.Paired lexicon)
    (hkind : t.kind = .openParen) (hne : inner ≠ []) :
    (t.text = "(" ∨ t.text = "[") ∧ State.closerKey t = t.text ∧
      Groups.openAfter (skipped ++ inner.map (·.key)) t =
        t.text :: (skipped ++ inner.map (·.key)) := by
  have hbracket : t.isBracket = true := by
    by_contra hword
    exact hne (h.inner_of_breaksLine (by simp [Token.breaksLine, hkind, hword]))
  have htext := ht.opening (by simp [isOpeningBracket, hkind, hbracket])
  refine ⟨htext, by rw [State.closerKey, if_pos hbracket], ?_⟩
  rw [Groups.openAfter, if_pos hbracket, if_pos (by simpa using htext)]

/-- An opener that gets no frame. -/
theorem skipOpener (h : Stacked n skipped (t :: tokens) inner outer) (ht : t.Paired lexicon)
    (hkind : t.kind = .openParen) (hstack : m.stack = n.stack) :
    Stacked m (State.closerKey t :: skipped) tokens inner outer := by
  refine h.follow hstack (fun hne => ?_) fun hne => ?_
  · obtain ⟨-, hkey, hopened⟩ := h.openAfter_opener ht hkind hne
    rw [hopened, hkey, List.cons_append]
  · obtain ⟨htext, hkey, -⟩ := h.openAfter_opener ht hkind hne
    rintro _ (_ | ⟨_, hmem⟩)
    · rwa [hkey]
    · exact h.bracket hne _ (List.mem_append_left _ hmem)

/-- A closer of the form of the last opener without a frame. -/
theorem skipCloser (h : Stacked n (key :: skipped) (t :: tokens) inner outer) (ht : t.Paired lexicon)
    (hkind : t.kind = .closeParen) (hstack : m.stack = n.stack)
    (hcloses : inner ≠ [] → lexicon.closes (State.closerKey t) key = true) :
    Stacked m skipped tokens inner outer := by
  refine h.follow hstack (fun hne => ?_) fun hne key' hkey' => ?_
  · have hf := hcloses hne
    have hbracket : t.isBracket = true := by
      by_contra hword
      rw [State.closerKey, if_neg hword, ht.word hkind (by simpa using hword) key
        (h.bracket hne key (by simp))] at hf
      cases hf
    have htext := ht.closing hkind hbracket
    rw [State.closerKey, if_pos hbracket, closes_bracket _ htext, beq_iff_eq] at hf
    rw [hf]
    exact Groups.openAfter_of_first hbracket (by rcases htext with h | h <;> rw [h] <;> rfl)
      (List.forall_mem_nil _)
  · exact h.bracket hne key' (List.mem_append_left _ (List.mem_cons_of_mem _ hkey'))

/-- An opening bracket of a block on one line. The width of the outermost of them was looked at. -/
theorem push (h : Stacked n [] (t :: tokens) inner outer) (ht : t.Paired lexicon)
    (hopen : isOpeningBracket t = true) (hquiet : inner = [] → Groups.Quiet [t.text] tokens)
    (hinline : f.inline = true) (hkey : f.key = t.text) (hlow : f.outer ≤ 2 * n.stack.length + 1) :
    Stacked (n.push f) [] tokens (f :: inner) outer := by
  have htext := ht.opening hopen
  refine ⟨congrArg (f :: ·) h.stack, ?_, h.block, fun _ => ?_, fun _ => ?_, hlow, h.low⟩
  · rintro g (_ | ⟨_, hg⟩)
    · exact hinline
    · exact h.inline g hg
  · rintro _ (_ | ⟨_, hmem⟩)
    · change f.key = "(" ∨ f.key = "["
      rwa [hkey]
    · obtain ⟨g, hg, -⟩ := List.mem_map.mp hmem
      exact h.bracket (List.ne_nil_of_mem hg) _ hmem
  · rw [List.nil_append, List.map_cons, hkey]
    by_cases hne : inner = []
    · rw [hne]
      exact hquiet hne
    · have hkind : t.kind = .openParen := by
        simp only [isOpeningBracket, Bool.and_eq_true, beq_iff_eq] at hopen
        exact hopen.1
      have := ((h.quiet hne).cons (opened_ne_nil hne)).2
      rwa [(h.openAfter_opener ht hkind hne).2.2] at this

/-- A closing bracket of a block on one line. -/
theorem close (h : Stacked n [] (t :: tokens) inner outer) (ht : t.Paired lexicon)
    (hkind : t.kind = .closeParen) (hstack : n.stack = pre ++ f :: m.stack)
    (hpre : ∀ g ∈ pre, lexicon.closes (State.closerKey t) g.key = false)
    (hf : lexicon.closes (State.closerKey t) f.key = true) (hinline : f.inline = true) :
    ∃ inner', Stacked m [] tokens inner' outer := by
  obtain ⟨inner', rfl, hrest⟩ := h.inner_of_append hstack hinline
  have hne : pre ++ f :: inner' ≠ [] := by simp
  have hbracket : t.isBracket = true := by
    by_contra hword
    rw [State.closerKey, if_neg hword, ht.word hkind (by simpa using hword) f.key
      (h.bracket hne f.key (by simp))] at hf
    cases hf
  have htext := ht.closing hkind hbracket
  simp only [State.closerKey, if_pos hbracket, closes_bracket _ htext, beq_iff_eq,
    beq_eq_false_iff_ne] at hf hpre
  have hlow := h.low
  rw [hstack] at hlow
  refine ⟨inner', hrest, fun g hg => h.inline g (by simp [hg]), h.block, fun _ key hkey => ?_,
    fun _ => ?_, hlow.of_append.2⟩
  · refine h.bracket hne key ?_
    rw [List.map_append, List.map_cons]
    exact List.mem_append_right _ (List.mem_append_right _ (List.mem_cons_of_mem _ hkey))
  · have hquiet := ((h.quiet hne).cons (opened_ne_nil hne)).2
    rwa [List.nil_append, List.map_append, List.map_cons, hf, Groups.openAfter_of_first hbracket
      (by rcases htext with h | h <;> rw [h] <;> rfl) (List.forall_mem_map.mpr hpre)] at hquiet

end Stacked

/-- The open blocks before some tokens, and the indentation of the line being written: that is at
most two levels for each block that is not kept on one line, and one more. -/
def Level (n : Nesting) (skipped : List String) (indent : Nat) (tokens : List Token) : Prop :=
  ∃ inner outer, Stacked n skipped tokens inner outer ∧ indent ≤ 2 * outer.length + 1

variable {n m : Nesting} {f : Frame} {below : List Frame} {tokens : List Token} {indent : Nat}
  {skipped skipped' : List String}

theorem level_of_block (hblock : ∀ f ∈ n.stack, f.inline = false) (hlow : Low n.stack)
    (hindent : indent ≤ 2 * n.stack.length + 1) : Level n skipped indent tokens :=
  ⟨[], n.stack, .of_block hblock hlow, hindent⟩

theorem Level.indent_le (h : Level n skipped indent tokens) : indent ≤ 2 * n.stack.length + 1 := by
  obtain ⟨inner, outer, hstacked, hindent⟩ := h
  rw [hstacked.stack, List.length_append]
  omega

/-- A token that opens nothing without a frame, and closes nothing that is. -/
theorem Level.after (h : Level m skipped indent tokens) (hsame : m.overflow = n.overflow)
    (t : Token) : Level m (skippedAfter t n m skipped) indent tokens := by
  rwa [skippedAfter_of_eq hsame]

theorem Level.low (h : Level n skipped indent tokens) : Low n.stack := by
  obtain ⟨inner, outer, hstacked, -⟩ := h
  exact hstacked.low

/-- Where nothing is kept on one line, only the indentation has to be looked at. -/
theorem Level.blocks (h : Level n skipped indent tokens) (hinline : n.inInline = false) :
    ∀ f ∈ n.stack, f.inline = false := by
  obtain ⟨inner, outer, hstacked, -⟩ := h
  obtain rfl := hstacked.inner_eq_nil hinline
  exact hstacked.blocks

/-! ## Indentation in a nesting -/

section Indentation

variable (hs : n.Sound) (hlow : Low n.stack)
include hs hlow

theorem base_of_top (htop : n.top? = some f) :
    f.outer + 1 ≤ 2 * n.stack.length ∧ f.base ≤ 2 * n.stack.length := by
  obtain ⟨rest, hstack⟩ := Nesting.top?_eq_some.mp htop
  have hbase := (hs.frames f (by rw [hstack]; simp)).base
  rw [hstack] at hlow ⊢
  have := hlow.1
  rw [List.length_cons]
  omega

theorem base_le : n.base ≤ 2 * n.stack.length := by
  cases hstack : n.stack with
  | nil => rw [Nesting.base, hstack]; exact Nat.zero_le _
  | cons f rest =>
    have htop : n.top? = some f := Nesting.top?_eq_some.mpr ⟨rest, hstack⟩
    have hbase : n.base = f.base := by rw [Nesting.base, hstack]
    rw [hbase, ← hstack]
    exact (base_of_top hs hlow htop).2

theorem depth_le : n.depth ≤ 2 * n.stack.length + 1 := by
  have := base_le hs hlow
  have := n.clause.isSome.toNat_le
  rw [Nesting.depth]
  omega

end Indentation

/-- The innermost frame may change where nothing is kept on one line. -/
theorem level_modifyTop (hblock : ∀ f ∈ n.stack, f.inline = false) (hlow : Low n.stack)
    {change : Frame → Frame} (hinline : ∀ f, (change f).inline = f.inline)
    (houter : ∀ f, (change f).outer = f.outer) (hindent : indent ≤ 2 * n.stack.length + 1) :
    Level (n.modifyTop change) skipped indent tokens := by
  refine level_of_block ?_ (low_modifyTop hlow houter) ?_
  · exact Nesting.forall_modifyTop (q := fun f => f.inline = false) hblock fun f hf => by
      rw [hinline, hf]
  · rwa [length_modifyTop]

theorem level_setClause (hblock : ∀ f ∈ n.stack, f.inline = false) (hlow : Low n.stack)
    (clause : Option Clause) (hindent : indent ≤ 2 * n.stack.length + 1) :
    Level (n.setClause clause) skipped indent tokens := by
  cases hstack : n.stack with
  | nil =>
    have hnil : (n.setClause clause).stack = n.stack := by rw [Nesting.setClause, hstack]
    refine level_of_block ?_ ?_ ?_ <;> rw [hnil]
    · exact hblock
    · exact hlow
    · exact hindent
  | cons f rest =>
    have hmodify : n.setClause clause = n.modifyTop fun f => { f with clause := clause } := by
      rw [Nesting.setClause, Nesting.modifyTop, hstack]
    rw [hmodify]
    exact level_modifyTop hblock hlow (fun _ => rfl) (fun _ => rfl) hindent

theorem level_push (hblock : ∀ f ∈ n.stack, f.inline = false) (hlow : Low n.stack)
    (hinline : f.inline = false) (houter : f.outer ≤ 2 * n.stack.length + 1)
    (hindent : indent ≤ f.outer + 1) : Level (n.push f) skipped indent tokens := by
  refine level_of_block ?_ ⟨houter, hlow⟩ ?_
  · rintro g (_ | ⟨_, hg⟩)
    · exact hinline
    · exact hblock g hg
  · simp only [Nesting.push, List.length_cons]
    omega

/-! ## One token -/

/-- What holds of the next token and those after it. -/
structure Item.Fits (ctx : Context) (item : Item) (tokens : List Token) : Prop where
  paired : item.token.Paired ctx.dialect.lexicon
  quiet : isOpeningBracket item.token = true → item.inlineWidth.isSome = true →
    Groups.Quiet [item.token.text] tokens

/-- A closer that is counted against an opener without a frame inside a block that is kept on one line
has the form of the last of them. -/
def State.Suits (ctx : Context) (s : State) (skipped : List String) (t : Token) : Prop :=
  t.kind = .closeParen → s.nesting.inInline = true →
    ∀ key ∈ skipped.head?, ctx.dialect.lexicon.closes (State.closerKey t) key = true

instance (ctx : Context) (s : State) (skipped : List String) (t : Token) :
    Decidable (s.Suits ctx skipped t) :=
  inferInstanceAs (Decidable (_ → _ → ∀ key ∈ skipped.head?, _))

/-- All closers among some items are of such a form. -/
def State.SuitsAll (ctx : Context) (s : State) (skipped : List String) : List Item → Prop
  | [] => True
  | item :: items =>
    s.Suits ctx skipped item.token ∧
      (s.step ctx item).SuitsAll ctx
        (skippedAfter item.token s.nesting (s.step ctx item).nesting skipped) items

instance State.decidableSuitsAll (ctx : Context) :
    (s : State) → (skipped : List String) → (items : List Item) →
      Decidable (s.SuitsAll ctx skipped items)
  | _, _, [] => instDecidableTrue
  | s, skipped, item :: items =>
    haveI := decidableSuitsAll ctx (s.step ctx item)
      (skippedAfter item.token s.nesting (s.step ctx item).nesting skipped) items
    inferInstanceAs (Decidable (_ ∧ _))

namespace State

variable {ctx : Context} {s : State} {item : Item} {d : Decision}

/-- A procedural frame is open inside no block that is kept on one line. -/
theorem inInline_of_procedural (hs : n.Sound) (hframe : n.topProcedural? = some f) :
    n.inInline = false := by
  obtain ⟨⟨rest, hstack⟩, hproc⟩ := Nesting.topProcedural?_eq_some.mp hframe
  rw [Nesting.inInline, Nesting.top?, hstack]
  exact not_inline_of_procedural (hs.frames f (by rw [hstack]; simp)) hproc

theorem top?_of_procedural (hframe : n.topProcedural? = some f) : n.top? = some f :=
  Nesting.top?_eq_some.mpr (Nesting.topProcedural?_eq_some.mp hframe).1

theorem inInline_of_keepsLine (h : s.keepsLine = false) : s.nesting.inInline = false := by
  simp only [keepsLine, Bool.or_eq_false_iff] at h
  exact h.1

/-- A token that is given a line of its own is indented as the blocks allow. -/
theorem Turn.placed_le (h : Turn ctx s item d) (hs : s.nesting.Sound) (hlow : Low s.nesting.stack) :
    ∀ indent ∈ d.placed, indent ≤ 2 * s.nesting.stack.length + 1 := by
  have hbase := base_le hs hlow
  have hdepth := depth_le hs hlow
  have htop : ∀ {f}, s.nesting.topProcedural? = some f → f.outer ≤ 2 * s.nesting.stack.length + 1 :=
    fun hframe => by
      have := (base_of_top hs hlow (top?_of_procedural hframe)).1
      omega
  intro indent hindent
  cases h with
  | content | skipOpener | skipCloser | headerEnd | comma | commaLine | value | statement | query |
    bracket | expression => cases hindent
  | clause =>
    cases hindent
    omega
  | line =>
    cases hindent
    exact hdepth
  | last hframe | header hframe | division hframe | declared hframe =>
    cases hindent
    exact htop hframe
  | block _ _ _ hplaced =>
    rcases hplaced with rfl | rfl
    · cases hindent
    · cases hindent
      omega
  | @close _ _ f n hclose =>
    obtain ⟨pre, hstack, -⟩ := Nesting.close?_eq_some hclose
    have hf : f.outer ≤ 2 * n.stack.length + 1 := by
      rw [hstack] at hlow
      exact hlow.of_append.1
    simp only at hindent
    split at hindent
    · cases hindent
    · cases hindent
      rw [hstack, List.length_append, List.length_cons]
      omega

theorem inInline_of_header (hs : n.Sound) (hframe : n.top? = some f)
    (hheader : f.headerEnd.isSome = true) : n.inInline = false := by
  obtain ⟨rest, hstack⟩ := Nesting.top?_eq_some.mp hframe
  rw [Nesting.inInline, hframe, Option.any_some, Bool.eq_false_iff]
  intro hinline
  rw [((hs.frames f (by rw [hstack]; simp)).inline hinline).2.1] at hheader
  cases hheader

/-- At most one more opener is without a frame after a token. -/
theorem Turn.overflow_le (h : Turn ctx s item d) : d.nesting.overflow ≤ s.nesting.overflow + 1 := by
  cases h with
  | content | line | last | comma | commaLine | bracket | expression | block => exact Nat.le_succ _
  | skipOpener => exact le_rfl
  | skipCloser => exact (Nat.sub_le ..).trans (Nat.le_succ _)
  | clause => exact (Nesting.overflow_setClause ..).trans_le (Nat.le_succ _)
  | header | division | headerEnd | value | declared =>
    exact (Nesting.overflow_modifyTop ..).trans_le (Nat.le_succ _)
  | statement _ hblock =>
    obtain ⟨_, _, _, -, -, -, hn, -⟩ := Nesting.toProcedural?_eq_some hblock
    rw [Nesting.overflow_modifyTop, hn]
    exact (Nesting.overflow_truncate_le ..).trans (Nat.le_succ _)
  | query => exact Nat.zero_le _
  | close _ hover hclose =>
    rw [Nesting.overflow_close? hover hclose]
    exact Nat.zero_le _

section Level

variable (hcount : skipped.length = s.nesting.overflow)
  (hlevel : Level s.nesting skipped s.page.indent (item.token :: tokens))
  (hitem : item.Fits ctx tokens)
include hcount hlevel hitem

/-- The open blocks after a token that is only written. -/
theorem level_content (hopen : isOpeningBracket item.token = false)
    (hclose : item.token.kind = .closeParen → s.nesting.overflow = 0 ∧
      s.nesting.close? (fun f => ctx.dialect.lexicon.closes (closerKey item.token) f.key) = none) :
    Level s.nesting skipped s.page.indent tokens := by
  obtain ⟨inner, outer, hstacked, hindent⟩ := hlevel
  refine ⟨inner, outer, ?_, hindent⟩
  by_cases hkind : item.token.kind = .closeParen
  · obtain ⟨hover, hnone⟩ := hclose hkind
    obtain rfl := List.eq_nil_of_length_eq_zero (hcount.trans hover)
    exact hstacked.stray hitem.paired hkind (Nesting.close?_eq_none.mp hnone)
  · refine hstacked.skip_of_not_bracket ?_
    simp only [isOpeningBracket, Bool.and_eq_false_iff, beq_eq_false_iff_ne] at hopen
    rcases hopen with hnot | hbracket
    · simp [Token.isBracket, hnot, hkind]
    · exact hbracket

/-- The open blocks after a closer that is counted against an opener without a frame. -/
theorem level_skipCloser (hkind : item.token.kind = .closeParen) (hover : 0 < s.nesting.overflow)
    (hsuits : s.Suits ctx skipped item.token) :
    Level { s.nesting with overflow := s.nesting.overflow - 1 } (skipped.drop 1) s.page.indent
      tokens := by
  obtain ⟨inner, outer, hstacked, hindent⟩ := hlevel
  cases skipped with
  | nil => exact absurd hcount hover.ne
  | cons key skipped =>
    exact ⟨inner, outer, hstacked.skipCloser hitem.paired hkind rfl fun hne =>
      hsuits hkind (hstacked.inInline_eq_true hne) key rfl, hindent⟩

/-- The open blocks after an opening bracket. -/
theorem level_bracket (hs : s.nesting.Sound) (hopen : isOpeningBracket item.token = true)
    (hfull : s.nesting.isFull = false) {inline : Bool}
    (hinline : inline = (s.nesting.inInline || Groups.fitsIn item.inlineWidth (s.available ctx)))
    (slot : Option Nat) :
    Level (s.nesting.push (frameAt .paren item.token.text s.page.indent inline none slot)) skipped
      ((if inline then none else some (s.page.indent + 1)).getD s.page.indent) tokens := by
  have hpage := hlevel.indent_le
  cases inline with
  | false =>
    have hnot : s.nesting.inInline = false := (Bool.or_eq_false_iff.mp hinline.symm).1
    exact level_push (hlevel.blocks hnot) hlevel.low rfl hpage le_rfl
  | true =>
    obtain ⟨inner, outer, hstacked, hindent⟩ := hlevel
    obtain rfl := List.eq_nil_of_length_eq_zero (hcount.trans (hs.overflow_eq_zero hfull))
    refine ⟨_, outer, hstacked.push hitem.paired hopen (fun hnil => ?_) rfl rfl hpage, hindent⟩
    subst hnil
    rw [hstacked.inInline_eq_false, Bool.false_or] at hinline
    refine hitem.quiet hopen ?_
    cases hwidth : item.inlineWidth with
    | none => rw [hwidth] at hinline; cases hinline
    | some width => rfl

/-- The open blocks after a closer. -/
theorem level_close (hkind : item.token.kind = .closeParen) (hover : s.nesting.overflow = 0)
    (hclose : s.nesting.close?
      (fun f => ctx.dialect.lexicon.closes (closerKey item.token) f.key) = some (f, n)) :
    Level n skipped ((if f.inline then none else some f.outer).getD s.page.indent) tokens := by
  have hlow := hlevel.low
  obtain ⟨inner, outer, hstacked, hindent⟩ := hlevel
  obtain ⟨pre, hstack, hpre, hf, -⟩ := Nesting.close?_eq_some hclose
  obtain rfl := List.eq_nil_of_length_eq_zero (hcount.trans hover)
  cases hinline : f.inline with
  | false =>
    have hnblock := hstacked.block_of_append hstack hinline
    rw [hstack] at hlow
    exact level_of_block (fun g hg => hnblock g (List.mem_cons_of_mem _ hg)) hlow.of_append.2
      hlow.of_append.1
  | true =>
    obtain ⟨inner', hclosed⟩ := hstacked.close hitem.paired hkind hstack hpre hf hinline
    exact ⟨inner', outer, hclosed, hindent⟩

end Level

/-- The frame of a procedural block may change in all but its lines. -/
theorem level_procedural (hs : s.nesting.Sound)
    (hlevel : Level s.nesting skipped s.page.indent (item.token :: tokens))
    (hframe : s.nesting.topProcedural? = some f) {change : Frame → Frame}
    (hinline : ∀ f, (change f).inline = f.inline) (houter : ∀ f, (change f).outer = f.outer)
    (hindent : indent = f.outer ∨ indent = f.base) :
    Level (s.nesting.modifyTop change) skipped' indent tokens := by
  have htop := base_of_top hs hlevel.low (top?_of_procedural hframe)
  exact level_modifyTop (hlevel.blocks (inInline_of_procedural hs hframe)) hlevel.low hinline houter
    (by omega)

/-- The open blocks after a semicolon in a procedural block. -/
theorem level_statement (hs : s.nesting.Sound)
    (hlevel : Level s.nesting skipped s.page.indent (item.token :: tokens))
    (hblock : s.nesting.toProcedural? = some n) (hframe : n.top? = some f) :
    Level (n.modifyTop fun f => { f with clause := none, headerEnd := none }) skipped' f.base
      tokens := by
  have hlow := hlevel.low
  obtain ⟨inner, outer, hstacked, -⟩ := hlevel
  obtain ⟨pre, g, rest, hstack, -, hproc, hn, hrest⟩ := Nesting.toProcedural?_eq_some hblock
  have hnlow : Low n.stack := by
    rw [hstack] at hlow
    rw [hrest]
    exact hlow.of_append
  have hnblock : ∀ f ∈ n.stack, f.inline = false := by
    rw [hrest]
    refine hstacked.block_of_append hstack (not_inline_of_procedural (hs.frames g ?_) hproc)
    rw [hstack]
    simp
  have htop := base_of_top (hn ▸ hs.truncate _) hnlow hframe
  exact level_modifyTop hnblock hnlow (fun _ => rfl) (fun _ => rfl) (by omega)

/-- The open blocks after a token. -/
theorem Turn.level (h : Turn ctx s item d) (hs : s.nesting.Sound)
    (hcount : skipped.length = s.nesting.overflow)
    (hlevel : Level s.nesting skipped s.page.indent (item.token :: tokens))
    (hitem : item.Fits ctx tokens) (hsuits : s.Suits ctx skipped item.token) :
    Level d.nesting (skippedAfter item.token s.nesting d.nesting skipped)
      (d.settled.getD (d.placed.getD s.page.indent)) tokens := by
  have hlow := hlevel.low
  have hpage := hlevel.indent_le
  have hbase := base_le hs hlow
  have hdepth := depth_le hs hlow
  -- where a rule may start a line no inline group is open, so only the blocks count there
  cases h with
  | content hopen hclose =>
    exact (level_content hcount hlevel hitem hopen hclose).after rfl _
  | skipOpener hkind =>
    obtain ⟨inner, outer, hstacked, hindent⟩ := hlevel
    rw [skippedAfter, if_pos (Nat.lt_succ_self _)]
    exact ⟨inner, outer, hstacked.skipOpener hitem.paired hkind rfl, hindent⟩
  | skipCloser hkind hover =>
    rw [skippedAfter, if_neg (Nat.not_lt.mpr (Nat.sub_le ..)), Nat.sub_sub_self hover]
    exact level_skipCloser hcount hlevel hitem hkind hover hsuits
  | clause _ hkeeps clause =>
    refine level_setClause (hlevel.blocks (inInline_of_keepsLine hkeeps)) hlow clause ?_
    have := clause.isSome.toNat_le
    simp only [Option.getD_some]
    omega
  | line _ hkeeps =>
    exact level_of_block (hlevel.blocks (inInline_of_keepsLine hkeeps)) hlow hdepth
  | last hframe =>
    have htop := base_of_top hs hlow (top?_of_procedural hframe)
    refine level_of_block (hlevel.blocks (inInline_of_procedural hs hframe)) hlow ?_
    simp only [Option.getD_some, Option.getD_none]
    omega
  | header hframe =>
    exact level_procedural hs hlevel hframe (fun _ => rfl) (fun _ => rfl) (.inl rfl)
  | division hframe | declared hframe =>
    exact level_procedural hs hlevel hframe (fun _ => rfl) (fun _ => rfl) (.inr rfl)
  | headerEnd hframe hheader =>
    have htop := base_of_top hs hlow hframe
    refine level_modifyTop (hlevel.blocks (inInline_of_header hs hframe hheader)) hlow
      (fun _ => rfl) (fun _ => rfl) ?_
    simp only [Option.getD_some]
    omega
  | comma hkind =>
    obtain ⟨inner, outer, hstacked, hindent⟩ := hlevel
    exact Level.after ⟨inner, outer, hstacked.skip_of_operator hkind, hindent⟩ rfl _
  | commaLine _ hkeeps =>
    exact level_of_block (hlevel.blocks (inInline_of_keepsLine hkeeps)) hlow hdepth
  | value hkind hframe hslot hsettled =>
    rcases hsettled with rfl | ⟨hkeeps, rfl⟩
    · obtain ⟨inner, outer, hstacked, hindent⟩ := hlevel
      obtain ⟨inner', outer', hstacked', hlength⟩ :=
        (hstacked.skip_of_operator hkind).modifyValue _
      exact Level.after ⟨inner', outer', hstacked', hlength ▸ hindent⟩
        (Nesting.overflow_modifyTop ..) _
    · exact level_modifyTop (hlevel.blocks (inInline_of_keepsLine hkeeps)) hlow (fun _ => rfl)
        (fun _ => rfl) hdepth
  | statement _ hblock hframe => exact level_statement hs hlevel hblock hframe
  | query =>
    have hnil : s.nesting.clear.stack = [] := by
      rw [Nesting.clear, Nesting.truncate_stack, Nat.sub_zero, List.drop_length]
    refine level_of_block ?_ ?_ (Nat.zero_le _) <;> rw [hnil]
    · simp
    · trivial
  | bracket hopen hfull hinline =>
    exact (level_bracket hcount hlevel hitem hs hopen hfull hinline _).after rfl _
  | expression hkind hbracket =>
    obtain ⟨inner, outer, hstacked, -⟩ := hlevel
    obtain rfl := hstacked.inner_of_breaksLine (by simp [Token.breaksLine, hkind, hbracket])
    exact level_push hstacked.blocks hlow hstacked.inInline_eq_false hpage (Nat.le_succ _)
  | block hkind hbracket hfull hplaced headerEnd =>
    obtain ⟨inner, outer, hstacked, -⟩ := hlevel
    obtain rfl := hstacked.inner_of_breaksLine (by simp [Token.breaksLine, hkind, hbracket])
    refine level_push hstacked.blocks hlow rfl ?_ ?_
    · rcases hplaced with rfl | rfl
      · exact hpage
      · exact hbase.trans (Nat.le_succ _)
    · cases headerEnd with
      | none => exact le_rfl
      | some key => exact Nat.le_succ _
  | close hkind hover hclose =>
    obtain rfl := List.eq_nil_of_length_eq_zero (hcount.trans hover)
    rw [skippedAfter_nil (Nesting.overflow_close? hover hclose)]
    exact level_close hcount hlevel hitem hkind hover hclose

end State

/-! ## The lines -/

/-- The line is indented less than the limit. -/
def Line.Shallow (line : Line) : Prop :=
  line.indent < 2 * maxDepth + 2

theorem shallow_advance {page : Page} (h : page.All Line.Shallow)
    (hindent : page.indent < 2 * maxDepth + 2) (space : Bool) :
    (page.advance space).All Line.Shallow := by
  unfold Page.indent at hindent
  unfold Page.advance
  cases hbreak : page.breakAt with
  | none =>
    simp only
    split
    · exact h.mk_line (h page.line (by simp))
    · exact h
  | some indent =>
    rw [hbreak] at hindent
    simp only
    split
    · exact h.mk_line hindent
    · rintro line (_ | ⟨_, hmem⟩)
      · exact hindent
      · rcases List.mem_append.mp hmem with hblank | hmem
        · rw [List.eq_of_mem_replicate hblank]
          exact Nat.succ_pos _
        · exact h line hmem

theorem shallow_write {page : Page} (h : page.All Line.Shallow) (text : String) (width : Nat) :
    (page.write text width).All Line.Shallow :=
  h.mk_line (h page.line (by simp))

/-- What holds before some tokens are laid out. -/
structure State.Levelled (s : State) (skipped : List String) (tokens : List Token) : Prop where
  sound : s.nesting.Sound
  count : skipped.length = s.nesting.overflow
  level : Level s.nesting skipped s.page.indent tokens
  lines : s.page.All Line.Shallow

namespace State.Levelled

variable {ctx : Context} {s : State} {item : Item}

theorem start (tokens : List Token) : State.start.Levelled [] tokens where
  sound := Nesting.sound_start
  count := rfl
  level := level_of_block (by simp [State.start, Nesting.start]) trivial (Nat.zero_le _)
  lines := by
    intro line hline
    obtain rfl := List.mem_singleton.mp hline
    exact Nat.succ_pos _

theorem indent_lt (h : s.Levelled skipped tokens) {indent : Nat}
    (hindent : indent ≤ 2 * s.nesting.stack.length + 1) : indent < 2 * maxDepth + 2 := by
  have := h.sound.bounded
  omega

theorem decided (h : s.Levelled skipped (item.token :: tokens)) {d : Decision}
    (hturn : Turn ctx s item d) (hitem : item.Fits ctx tokens)
    (hsuits : s.Suits ctx skipped item.token) (between : Bool) :
    (s.decided ctx item d between).Levelled (skippedAfter item.token s.nesting d.nesting skipped)
      tokens := by
  have hplaced : d.placed.getD s.page.indent < 2 * maxDepth + 2 := by
    cases hd : d.placed with
    | none => exact h.indent_lt h.level.indent_le
    | some indent => exact h.indent_lt (hturn.placed_le h.sound h.level.low indent hd)
  have hwritten : (s.written ctx item d.placed (d.anchor.or s.pendingAnchor)).All Line.Shallow := by
    have hpage : (s.page.place d.placed).All Line.Shallow := by
      cases d.placed <;> exact h.lines
    have hindent : (s.page.place d.placed).indent < 2 * maxDepth + 2 := by
      cases hd : d.placed <;> (rw [hd] at hplaced; exact hplaced)
    have hadvance := shallow_advance hpage hindent (s.spaceBefore ctx item)
    have hline : Line.Shallow ((s.page.place d.placed).advance (s.spaceBefore ctx item)).line :=
      hadvance _ List.mem_cons_self
    refine shallow_write ?_ _ _
    cases d.anchor.or s.pendingAnchor with
    | none => exact hadvance
    | some place => exact hadvance.mk_line hline
  constructor
  case sound => exact hturn.sound h.sound
  case count => exact length_skippedAfter h.count hturn.overflow_le _
  case level =>
    have hlevel := hturn.level h.sound h.count h.level hitem hsuits
    have hindent := pageIndent_written ctx s item d.placed (d.anchor.or s.pendingAnchor)
    unfold State.decided Page.settle
    cases hd : d.settled with
    | none =>
      rw [hd, Option.getD_none, ← hindent] at hlevel
      exact hlevel
    | some indent =>
      rw [hd, Option.getD_some] at hlevel
      exact hlevel
  case lines =>
    unfold State.decided Page.settle
    cases d.settled <;> exact hwritten

/-- A comment stands in no block that is kept on one line. -/
theorem comment (h : s.Levelled skipped (item.token :: tokens))
    (hcomment : item.token.kind.isComment = true) : (s.comment ctx item).Levelled skipped tokens := by
  have hbreaks : item.token.breaksLine = true := by
    unfold Token.breaksLine
    cases hkind : item.token.kind <;> rw [hkind] at hcomment <;> first | rfl | cases hcomment
  obtain ⟨inner, outer, hstacked, -⟩ := id h.level
  obtain rfl := hstacked.inner_of_breaksLine hbreaks
  have hdepth := depth_le h.sound h.level.low
  have hpage := h.level.indent_le
  have hbroken : (s.broken item).page.indent ≤ 2 * s.nesting.stack.length + 1 := by
    unfold broken
    split
    · exact hdepth
    · exact hpage
  have hlevel : ∀ indent ≤ 2 * s.nesting.stack.length + 1, Level s.nesting skipped indent tokens :=
    fun indent => level_of_block hstacked.blocks h.level.low
  have hwritten : (s.commentWritten ctx item).All Line.Shallow ∧
      (s.commentWritten ctx item).indent ≤ 2 * s.nesting.stack.length + 1 := by
    suffices hplaced : (s.commentPage item).All Line.Shallow ∧
        (s.commentPage item).indent ≤ 2 * s.nesting.stack.length + 1 from
      ⟨shallow_write hplaced.1 _ _, hplaced.2⟩
    have hlines : (s.broken item).page.All Line.Shallow := by
      unfold broken
      split <;> exact h.lines
    unfold commentPage
    split
    · exact ⟨shallow_write h.lines _ _, hpage⟩
    · refine ⟨shallow_advance hlines (h.indent_lt hbroken) true, ?_⟩
      rwa [Page.indent, Page.breakAt_advance, Option.getD_none, Page.lineIndent_advance]
  rw [comment_eq]
  refine ⟨h.sound, h.count, ?_, ?_⟩
  · simp only
    split
    · exact hlevel _ hdepth
    · exact hlevel _ hwritten.2
  · simp only
    split <;> exact hwritten.1

theorem step (h : s.Levelled skipped (item.token :: tokens)) (hitem : item.Fits ctx tokens)
    (hsuits : s.Suits ctx skipped item.token) :
    (s.step ctx item).Levelled (skippedAfter item.token s.nesting (s.step ctx item).nesting skipped)
      tokens := by
  unfold State.step
  split
  · next hcomment =>
    rw [skippedAfter_of_eq (congrArg Nesting.overflow (comment_nesting ctx s item))]
    exact h.comment hcomment
  · obtain ⟨d, hturn, heq⟩ := turns_significant ctx s item
    rw [heq]
    obtain ⟨hsound, hcount, hlevel, hlines⟩ :=
      h.decided hturn hitem hsuits (s.significant ctx item).between
    exact ⟨hsound, hcount, hlevel, hlines⟩

theorem run {items : List Item} (h : s.Levelled skipped (items.map (·.token)))
    (hpaired : ∀ item ∈ items, item.token.Paired ctx.dialect.lexicon) (hquiet : Item.Quiet items)
    (hsuits : s.SuitsAll ctx skipped items) : ∃ skipped', (s.run ctx items).Levelled skipped' [] := by
  induction items generalizing s skipped with
  | nil => exact ⟨skipped, h⟩
  | cons item items ih =>
    exact ih (h.step ⟨hpaired item (by simp), hquiet.1⟩ hsuits.1)
      (fun item hi => hpaired item (List.mem_cons_of_mem _ hi)) hquiet.2 hsuits.2

end State.Levelled

end Layout

open State in
/-- **Indentation is bounded**: as long as the closers that are counted against openers beyond the limit
of frames have the form of these openers where a block is kept on one line, every line is indented less
than `2 * maxDepth + 2` levels, before and after alignment, however long and however badly nested the
text is. -/
theorem indent_lt_of_suitsAll (dialect : Dialect) (style : Style) (text : String)
    (h : State.start.SuitsAll ⟨style, dialect, style.decoration⟩ []
      (Item.ofTokens ((tokenize dialect.lexicon text).map style.params.substitute))) :
    (∀ line ∈ linesOfText dialect style text, line.indent < 2 * maxDepth + 2) ∧
      ∀ lines ∈ Alignment.alignAll? style (linesOfText dialect style text), ∀ line ∈ lines,
        line.indent < 2 * maxDepth + 2 := by
  have hpaired : ∀ t ∈ (tokenize dialect.lexicon text).map style.params.substitute,
      t.Paired dialect.lexicon := by
    refine List.forall_mem_map.mpr fun t ht => ?_
    exact (paired_of_mem dialect .start 0 text.toList t ht).substitute _
  have hitems : ∀ item ∈ Item.ofTokens ((tokenize dialect.lexicon text).map style.params.substitute),
      item.token.Paired dialect.lexicon := by
    intro item hitem
    have hmem := List.mem_map_of_mem (f := (·.token)) hitem
    rw [Item.map_token_ofTokens] at hmem
    exact hpaired _ (List.mem_filter.mp hmem).1
  obtain ⟨skipped, hrun⟩ :=
    (Levelled.start _).run hitems (Item.quiet_ofTokens fun t ht => (hpaired t ht).opening) h
  have hlines : ∀ line ∈ linesOfText dialect style text, line.indent < 2 * maxDepth + 2 :=
    fun line hline => hrun.lines line (List.mem_reverse.mp hline)
  refine ⟨hlines, fun aligned haligned line hline => ?_⟩
  have hmem := List.mem_map_of_mem (f := (·.indent)) hline
  rw [← Alignment.map_indent_alignAll haligned] at hmem
  obtain ⟨source, hsource, hsame⟩ := List.mem_map.mp hmem
  exact hsame ▸ hlines source hsource

/-- Brackets beyond the limit of frames on one line, and columns that are lined up. -/
theorem indent_lt_of_suitsAll_nested :
    let style : Style := { Style.standard with alignColumns := true }
    let text := String.ofList ("SELECT a AS b,ccc AS d,".toList ++
      (List.replicate 66 '(' ++ "[e]".toList ++ List.replicate 66 ')'))
    (∀ line ∈ linesOfText .standard style text, line.indent < 130) ∧
      ∀ lines ∈ Alignment.alignAll? style (linesOfText .standard style text), ∀ line ∈ lines,
        line.indent < 130 := by
  intro style text
  refine indent_lt_of_suitsAll .standard style text ?_
  rw [tokenize, String.toList_ofList]
  decide +kernel

/-- Round brackets are closed where square ones without a frame are open, twice. A line in the blocks
that stay open is indented as far as none should be. -/
theorem exists_indent_ge_of_unsuited :
    let text := String.ofList (List.replicate 62 "(SET".toList ++
      List.replicate 2 "(([[)))BEGIN ADD 1)".toList).flatten
    ∃ lines ∈ Alignment.alignAll? .standard (linesOfText .postgresql .standard text),
      ∃ line ∈ lines, 2 * maxDepth + 2 ≤ line.indent := by
  intro text
  have hdeep : (linesOfText .postgresql .standard text).any (2 * maxDepth + 2 ≤ ·.indent) = true := by
    rw [linesOfText, tokenize, String.toList_ofList]
    decide +kernel
  obtain ⟨line, hline, hindent⟩ := List.any_eq_true.mp hdeep
  exact ⟨_, rfl, line, hline, of_decide_eq_true hindent⟩

end SqlFormat

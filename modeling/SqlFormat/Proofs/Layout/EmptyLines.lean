import Mathlib
import SqlFormat.Proofs.Layout.Between
import SqlFormat.Proofs.Layout.Parts
import SqlFormat.Proofs.Layout.Statements
import SqlFormat.Proofs.Text.Reindent

/-!
# Empty lines

Layout leaves empty lines in one place only: behind a semicolon that ends a query and the comments that
stay on its line, if anything comes after them. Everything that is laid out puts text on a line, and a
line is finished only when it has text on it. So all the empty lines of a page are those that a
semicolon asked for, and they are written with the next line that starts.

Results: `adds_step` (one token), `pending_stateAt` (what waits between two tokens),
`text_eq_empty_iff`, `spaced_lines`.
-/

namespace SqlFormat.Layout

open Text

variable {ctx : Context} {s : State} {item : Item} {items : List Item} {page page' : Page}
  {text : String} {i j k m : Nat}

/-! ## More text on a page -/

/-- A text is put on a page: on the line that was being written, or on a new line below the empty lines
that were asked for. -/
inductive Page.Adds (text : String) (page page' : Page) : Prop
  | onto (done : page'.done = page.done)
      (line : ∃ gap, page'.line.text = page.line.text ++ gap ++ text)
  | below (written : page.line.text ≠ "")
      (done : page'.done =
        List.replicate page.blankLines (.empty 0) ++ page.line :: page.done)
      (line : page'.line.text = text)

namespace Page

theorem adds_advance (page : Page) (space : Bool) : page.Adds "" (page.advance space) := by
  unfold advance
  cases page.breakAt with
  | none =>
    cases space && !page.line.text.isEmpty with
    | false => exact .onto rfl ⟨"", by simp⟩
    | true => exact .onto rfl ⟨" ", by simp [write]⟩
  | some indent =>
    by_cases hempty : page.line.text = ""
    · exact .onto (by simp [hempty]) ⟨"", by simp [hempty]⟩
    · have hwritten : ¬page.line.text.isEmpty = true := by simpa using hempty
      exact .below hempty (by simp [hwritten]) (by simp [hwritten, Line.empty])

theorem Adds.write (h : page.Adds "" page') (text : String) (width : Nat) :
    page.Adds text (page'.write text width) := by
  cases h with
  | onto hdone hline =>
    obtain ⟨gap, hline⟩ := hline
    exact .onto hdone ⟨gap, by rw [Page.write, hline, String.append_empty]⟩
  | below hwritten hdone hline =>
    exact .below hwritten hdone (by rw [Page.write, hline, String.empty_append])

theorem Adds.note (h : page.Adds text page') (anchor : Option (AnchorKind × Nat)) :
    page.Adds text (page'.note anchor) := by
  obtain ⟨hnote, hnoteDone⟩ := page'.note_text anchor
  cases h with
  | onto hdone hline => exact .onto (hnoteDone.trans hdone) (by rwa [hnote])
  | below hwritten hdone hline =>
    exact .below hwritten (hnoteDone.trans hdone) (hnote.trans hline)

theorem Adds.settle (h : page.Adds text page') (indent : Option Nat) (lines : Nat) :
    page.Adds text (page'.settle indent lines) := by
  obtain ⟨hsettle, hsettleDone⟩ := page'.settle_text indent lines
  cases h with
  | onto hdone hline => exact .onto (hsettleDone.trans hdone) (by rwa [hsettle])
  | below hwritten hdone hline =>
    exact .below hwritten (hsettleDone.trans hdone) (hsettle.trans hline)

/-- A line that is to be started changes nothing of what is there. -/
theorem Adds.of_same {base : Page} (h : page.Adds text page')
    (hsame : page.done = base.done ∧ page.line = base.line ∧ page.blankLines = base.blankLines) :
    base.Adds text page' := by
  obtain ⟨hdone, hline, hblank⟩ := hsame
  cases h with
  | onto done line => exact .onto (done.trans hdone) (hline ▸ line)
  | below written done line =>
    rw [hdone, hline, hblank] at done
    exact .below (hline ▸ written) done line

/-- A text does not come to stand on an empty line. -/
theorem Adds.line_ne (h : page.Adds text page') (htext : text ≠ "") : page'.line.text ≠ "" := by
  have hne : ∀ front : String, front ++ text ≠ "" := by
    intro front hempty
    rw [← String.toList_eq_nil_iff, String.toList_append, List.append_eq_nil_iff,
      String.toList_eq_nil_iff, String.toList_eq_nil_iff] at hempty
    exact htext hempty.2
  cases h with
  | onto _ hline =>
    obtain ⟨gap, hline⟩ := hline
    rw [hline]
    exact hne _
  | below _ _ hline => rwa [hline]

theorem Adds.done_le (h : page.Adds text page') : page.done.length ≤ page'.done.length := by
  cases h with
  | onto hdone => rw [hdone]
  | below _ hdone =>
    rw [hdone, List.length_append, List.length_cons]
    omega

/-- The lines of the page: the finished ones, and the one that is being written. -/
theorem lines_eq (page : Page) : page.lines = page.done.reverse ++ [page.line] := by
  rw [lines, List.reverse_cons]

/-- What is on a line stays there. -/
theorem Adds.keeps (h : page.Adds text page') {line : Line} (hline : page.lines[j]? = some line) :
    ∃ line', page'.lines[j]? = some line' ∧ line.text.toList <+: line'.text.toList := by
  rw [lines_eq] at hline ⊢
  cases h with
  | onto hdone hadded =>
    obtain ⟨gap, hadded⟩ := hadded
    rw [hdone]
    rcases Nat.lt_or_ge j page.done.reverse.length with hlt | hge
    · rw [List.getElem?_append_left hlt] at hline ⊢
      exact ⟨line, hline, List.prefix_rfl⟩
    · rw [List.getElem?_append_right hge, List.getElem?_singleton] at hline ⊢
      split at hline
      · next hzero =>
        cases hline
        refine ⟨page'.line, if_pos hzero, ?_⟩
        rw [hadded, String.append_assoc, String.toList_append]
        exact List.prefix_append _ _
      · cases hline
  | below _ hdone _ =>
    have hlt : j < (page.done.reverse ++ [page.line]).length :=
      (List.getElem?_eq_some_iff.mp hline).1
    have hmore : page'.done.reverse ++ [page'.line] = page.done.reverse ++ [page.line] ++
        (List.replicate page.blankLines (Line.empty 0) ++ [page'.line]) := by
      rw [hdone, List.reverse_append, List.reverse_cons, List.reverse_replicate]
      simp only [List.append_assoc]
    rw [hmore, List.getElem?_append_left hlt]
    exact ⟨line, hline, List.prefix_rfl⟩

end Page

/-! ## One step -/

namespace State

/-- What is written for an item, colour apart. -/
def textOf (ctx : Context) (s : State) (item : Item) : String :=
  if item.token.kind.isComment then commentText ctx item.token (s.commentPage item).line.indent
  else displayText ctx item.token

/-- Of a text that can be seen something is written. -/
theorem textOf_ne_empty (ctx : Context) (s : State) (h : Visible item.token.text.toList) :
    s.textOf ctx item ≠ "" := by
  rw [Ne, ← String.toList_eq_nil_iff]
  unfold textOf
  split
  · unfold commentText
    split
    · rw [trimEnd, String.toList_ofList]
      exact h.dropWhileEnd_ne_nil
    · split
      · exact h.ne_nil
      · exact (visible_reindent h _ _).ne_nil
  · unfold displayText
    split
    · exact (h.normalizePhrase.apply _).ne_nil
    · exact h.ne_nil

theorem adds_written (ctx : Context) (s : State) (item : Item) (placed : Option Nat)
    (anchor : Option (AnchorKind × Nat)) :
    s.page.Adds (ctx.decorate item.token.kind (displayText ctx item.token))
      (s.written ctx item placed anchor) := by
  have hadvance := (s.page.place placed).adds_advance (s.spaceBefore ctx item)
  have hwritten := (hadvance.note anchor).write
    (ctx.decorate item.token.kind (displayText ctx item.token))
    (lastLineWidth (displayText ctx item.token))
  refine hwritten.of_same ?_
  cases placed <;> exact ⟨rfl, rfl, rfl⟩

/-- **Every item adds its text** to the page. -/
theorem adds_step (ctx : Context) (s : State) (item : Item) :
    s.page.Adds (ctx.decorate item.token.kind (s.textOf ctx item)) (s.step ctx item).page := by
  unfold step textOf
  split
  · have hpage : s.page.Adds "" (s.commentPage item) := by
      unfold commentPage
      split
      · exact .onto rfl ⟨" ", by simp [Page.write]⟩
      · refine ((s.broken item).page.adds_advance true).of_same ?_
        unfold broken
        split <;> exact ⟨rfl, rfl, rfl⟩
    have hwritten : s.page.Adds _ (s.commentWritten ctx item) := hpage.write _ _
    rw [comment_eq]
    simp only
    split
    · rw [Page.newline_eq_settle]
      exact hwritten.settle _ _
    · exact hwritten
  · rw [significant_eq]
    exact (adds_written ctx s item _ _).settle _ _

end State

/-! ## What waits for the next line -/

/-- A comment that stays on the line of what is before it. -/
def Item.trails (item : Item) : Bool :=
  item.token.kind.isComment && !item.startsLine

/-- A procedural block is open if one is counted. -/
theorem Nesting.Sound.exists_toProcedural {n : Nesting} (h : n.Sound)
    (hdepth : 0 < n.proceduralDepth) : ∃ block, n.toProcedural? = some block := by
  rw [h.procedural] at hdepth
  obtain ⟨f, hf, hprocedural⟩ := List.countP_pos_iff.mp hdepth
  unfold Nesting.toProcedural?
  cases hdrop : n.stack.dropWhile fun f => !f.isProcedural with
  | nil =>
    have hnone := List.dropWhile_eq_nil_iff.mp hdrop f hf
    rw [hprocedural] at hnone
    cases hnone
  | cons f rest => exact ⟨_, rfl⟩

namespace State

/-- The line that is being written has text on it and is going to be finished, with this many empty lines
behind it. -/
structure Resting (s : State) (lines : Nat) : Prop where
  breakAt : s.page.breakAt.isSome = true
  line : s.page.line.text ≠ ""
  blankLines : s.page.blankLines = lines

/-- The token is a semicolon outside all procedural blocks. -/
def endsQuery (s : State) (token : Token) : Bool :=
  token.isOperator ";" && s.nesting.proceduralDepth == 0

theorem not_comment_of_endsQuery (h : s.endsQuery item.token = true) :
    item.token.kind.isComment = false := by
  simp only [endsQuery, Token.isOperator, Bool.and_eq_true, beq_iff_eq] at h
  rw [h.1.1]
  rfl

/-- Only a semicolon outside all procedural blocks asks for empty lines. -/
theorem Turn.blank_eq_zero {d : Decision} (h : Turn ctx s item d) (hs : s.nesting.Sound)
    (hquery : s.endsQuery item.token = false) : d.blank = 0 := by
  cases h with
  | query hkind hdepth =>
    have hzero : s.nesting.proceduralDepth = 0 := by
      rcases hdepth with hzero | hnone
      · exact hzero
      · by_contra hne
        obtain ⟨block, hblock⟩ := hs.exists_toProcedural (Nat.pos_of_ne_zero hne)
        rw [hnone] at hblock
        cases hblock
    rw [endsQuery, hkind, hzero] at hquery
    cases hquery
  | _ => rfl

/-- Behind a semicolon outside all procedural blocks, empty lines are asked for. -/
theorem resting_of_endsQuery (hprompt : s.Prompt) (h : s.endsQuery item.token = true)
    (htext : ctx.decorate item.token.kind (s.textOf ctx item) ≠ "") :
    (s.step ctx item).Resting ctx.style.linesBetweenQueries := by
  have hcomment := not_comment_of_endsQuery h
  have hline := (adds_step ctx s item).line_ne htext
  simp only [endsQuery, Bool.and_eq_true, beq_iff_eq] at h
  have hpage : (s.step ctx item).page =
      (s.written ctx item none s.pendingAnchor).settle (some 0) ctx.style.linesBetweenQueries := by
    rw [step, if_neg (by simp [hcomment]), significant_eq, decision_query h.1 h.2]
    rfl
  refine ⟨by rw [hpage]; rfl, hline, ?_⟩
  rw [hpage]
  change max (s.written ctx item none s.pendingAnchor).blankLines _ = _
  rw [hprompt.written, Nat.zero_max]

/-- No empty lines are asked for behind anything else. -/
theorem blankLines_step (hprompt : s.Prompt) (hs : s.nesting.Sound)
    (hquery : s.endsQuery item.token = false)
    (hrest : item.trails = false ∨ s.page.blankLines = 0) :
    (s.step ctx item).page.blankLines = 0 := by
  unfold step
  split
  · next hcomment =>
    have hbroken : (s.broken item).page.breakAt = none → (s.broken item).page.blankLines = 0 := by
      unfold broken
      split
      · exact nofun
      · exact hprompt
    have hpage : (s.commentPage item).blankLines = 0 := by
      unfold commentPage
      split
      · next hattaches =>
        refine hrest.resolve_left fun htrails => ?_
        simp only [attaches, Bool.and_eq_true] at hattaches
        rw [Item.trails, hcomment, hattaches.1.1] at htrails
        cases htrails
      · exact blankLines_advance hbroken true
    rw [comment_eq]
    simp only
    split <;> exact hpage
  · obtain ⟨d, hturn, heq⟩ := turns_significant ctx s item
    have hwritten : (s.written ctx item d.placed (d.anchor.or s.pendingAnchor)).blankLines = 0 :=
      hprompt.written d.placed _
    have hblank := hturn.blank_eq_zero hs hquery
    rw [heq]
    change ((s.written ctx item d.placed (d.anchor.or s.pendingAnchor)).settle d.settled
      d.blank).blankLines = 0
    rw [hblank]
    cases d.settled with
    | none => exact hwritten
    | some indent => exact (Nat.max_zero _).trans hwritten

namespace Resting

variable {lines : Nat}

/-- A comment that stays on its line leaves everything else as it is. -/
theorem trails (h : s.Resting lines) (htrails : item.trails = true)
    (htext : ctx.decorate item.token.kind (s.textOf ctx item) ≠ "") :
    (s.step ctx item).page.done = s.page.done ∧ (s.step ctx item).Resting lines := by
  have hline := (adds_step ctx s item).line_ne htext
  rw [Item.trails, Bool.and_eq_true] at htrails
  have hattaches : s.attaches item = true := by
    simp [attaches, htrails.2, Page.atLineStart, h.breakAt, h.line]
  have hpage : s.commentPage item = s.page.write " " 1 := by
    rw [commentPage, if_pos hattaches]
  have hbreak : (s.commentWritten ctx item).breakAt.isNone = false := by
    rw [commentWritten, hpage]
    simpa [Page.write] using h.breakAt
  have hstep : (s.step ctx item).page = s.commentWritten ctx item := by
    rw [step, if_pos htrails.1, comment_eq, hbreak, Bool.and_false]
    rfl
  rw [hstep] at hline
  refine ⟨?_, ?_, ?_, ?_⟩
  · rw [hstep, commentWritten, hpage]
    rfl
  · rw [hstep, commentWritten, hpage]
    exact h.breakAt
  · rwa [hstep]
  · rw [hstep, commentWritten, hpage]
    exact h.blankLines

/-- Anything else finishes the line. -/
theorem starts (h : s.Resting lines) (htrails : item.trails = false) :
    (s.step ctx item).page.done =
      List.replicate lines (.empty 0) ++ s.page.line :: s.page.done := by
  have hadvance : ∀ (page : Page) (space : Bool), page.breakAt.isSome = true →
      page.line = s.page.line → page.blankLines = s.page.blankLines → page.done = s.page.done →
      (page.advance space).done = List.replicate lines (.empty 0) ++ s.page.line :: s.page.done := by
    intro page space hbreak hline hblank hdone
    obtain ⟨indent, hindent⟩ := Option.isSome_iff_exists.mp hbreak
    have hwritten : ¬s.page.line.text.isEmpty = true := by simpa using h.line
    rw [Page.advance, hindent]
    simp only [hline, hwritten, hblank, hdone, h.blankLines]
    rfl
  unfold step
  split
  · next hcomment =>
    have hstarts : item.startsLine = true := by simpa [Item.trails, hcomment] using htrails
    have hpage : (s.commentPage item).done =
        List.replicate lines (.empty 0) ++ s.page.line :: s.page.done := by
      have hattaches : s.attaches item = false := by simp [attaches, hstarts]
      have hbroken : s.broken item = s := by
        simp [broken, Page.atLineStart, h.breakAt]
      rw [commentPage, if_neg (by simp [hattaches]), hbroken]
      exact hadvance s.page true h.breakAt rfl rfl rfl
    rw [comment_eq]
    simp only
    split <;> exact hpage
  · rw [significant_eq]
    refine ((Page.settle_text ..).2).trans ?_
    refine ((Page.note_text ..).2).trans ?_
    generalize ((s.sight ctx item.token).decision ctx item).placed = placed
    cases placed with
    | none => exact hadvance s.page _ h.breakAt rfl rfl rfl
    | some indent => exact hadvance (s.page.newline indent) _ rfl rfl rfl rfl

end Resting

end State

/-! ## Queries and what follows them -/

/-- The item behind `k` items is a semicolon outside all procedural blocks. -/
def EndsQuery (ctx : Context) (items : List Item) (k : Nat) : Prop :=
  ∃ item, items[k]? = some item ∧ (stateAt ctx items k).endsQuery item.token = true

/-- A query ends with `k` items before its semicolon, and up to the item behind `m` items only comments
that stay on the line of the semicolon follow it. -/
structure Pending (ctx : Context) (items : List Item) (k m : Nat) : Prop where
  query : EndsQuery ctx items k
  lt : k < m
  trail : ∀ i, k < i → i < m → items[i]?.any Item.trails = true

/-- The item behind `m` items is the first one behind a query that is no comment on the line of its
semicolon. -/
structure Separates (ctx : Context) (items : List Item) (k m : Nat) : Prop extends
    Pending ctx items k m where
  next : items[m]?.any (fun item => !item.trails) = true

/-- The line that the item behind `i` items stands on. -/
def lineOf (ctx : Context) (items : List Item) (i : Nat) : Nat :=
  (stateAt ctx items (i + 1)).page.done.length

/-- What is written for the item behind `i` items. -/
def textAt (ctx : Context) (items : List Item) (i : Nat) (item : Item) : String :=
  ctx.decorate item.token.kind ((stateAt ctx items i).textOf ctx item)

/-- The line with this index is one of those behind a query that is followed before `m` items. -/
def InGap (ctx : Context) (items : List Item) (m j : Nat) : Prop :=
  ∃ k n, n < m ∧ Separates ctx items k n ∧
    lineOf ctx items k < j ∧ j ≤ lineOf ctx items k + ctx.style.linesBetweenQueries

theorem inGap_succ : InGap ctx items (m + 1) j ↔ InGap ctx items m j ∨ ∃ k, Separates ctx items k m ∧
    lineOf ctx items k < j ∧ j ≤ lineOf ctx items k + ctx.style.linesBetweenQueries := by
  constructor
  · rintro ⟨k, n, hn, hrest⟩
    rcases Nat.lt_succ_iff_lt_or_eq.mp hn with hlt | rfl
    · exact .inl ⟨k, n, hlt, hrest⟩
    · exact .inr ⟨k, hrest⟩
  · rintro (⟨k, n, hn, hrest⟩ | ⟨k, hrest⟩)
    · exact ⟨k, n, Nat.lt_succ_of_lt hn, hrest⟩
    · exact ⟨k, m, Nat.lt_succ_self m, hrest⟩

theorem not_trails_of_endsQuery (h : s.endsQuery item.token = true) : item.trails = false := by
  rw [Item.trails, State.not_comment_of_endsQuery h, Bool.false_and]

theorem Pending.unique (h : Pending ctx items k m) (h' : Pending ctx items j m) : k = j := by
  have hle : ∀ {k j : Nat}, Pending ctx items k m → Pending ctx items j m → ¬k < j := by
    intro k j h h' hlt
    obtain ⟨item, hitem, hquery⟩ := h'.query
    have htrails := h.trail j hlt h'.lt
    rw [hitem, Option.any_some, not_trails_of_endsQuery hquery] at htrails
    cases htrails
  exact Nat.le_antisymm (not_lt.mp (hle h' h)) (not_lt.mp (hle h h'))

/-- A query is followed before the next one ends. -/
theorem Separates.le (h : Separates ctx items k m) (h' : Separates ctx items i j) (hlt : k < i) :
    m ≤ i := by
  by_contra hge
  obtain ⟨item, hitem, hquery⟩ := h'.query
  have htrails := h.trail i hlt (not_le.mp hge)
  rw [hitem, Option.any_some, not_trails_of_endsQuery hquery] at htrails
  cases htrails

/-- One item more, and a query still waits if it has just ended, or if the item stays on its line. -/
theorem pending_succ (hm : items[m]? = some item) : Pending ctx items k (m + 1) ↔
    k = m ∧ (stateAt ctx items m).endsQuery item.token = true ∨
      Pending ctx items k m ∧ item.trails = true := by
  constructor
  · rintro ⟨hquery, hlt, htrail⟩
    rcases Nat.lt_succ_iff_lt_or_eq.mp hlt with hlt | rfl
    · refine .inr ⟨⟨hquery, hlt, fun i hki hi => htrail i hki (Nat.lt_succ_of_lt hi)⟩, ?_⟩
      simpa [hm] using htrail m hlt (Nat.lt_succ_self m)
    · obtain ⟨item', hitem', hends⟩ := hquery
      obtain rfl : item = item' := Option.some.inj (hm.symm.trans hitem')
      exact .inl ⟨rfl, hends⟩
  · rintro (⟨rfl, hends⟩ | ⟨⟨hquery, hlt, htrail⟩, htrails⟩)
    · exact ⟨⟨item, hm, hends⟩, Nat.lt_succ_self k, fun i hki hi => by omega⟩
    · refine ⟨hquery, Nat.lt_succ_of_lt hlt, fun i hki hi => ?_⟩
      rcases Nat.lt_succ_iff_lt_or_eq.mp hi with hi | rfl
      · exact htrail i hki hi
      · rw [hm, Option.any_some, htrails]

/-! ## What waits between two tokens -/

section Run

variable (htext : ∀ i item, items[i]? = some item → textAt ctx items i item ≠ "")

theorem adds_stateAt (ctx : Context) (hk : items[k]? = some item) :
    (stateAt ctx items k).page.Adds (textAt ctx items k item) (stateAt ctx items (k + 1)).page := by
  rw [stateAt_succ ctx hk]
  exact State.adds_step ctx _ item

theorem done_mono (ctx : Context) (items : List Item) (hle : i ≤ j) :
    (stateAt ctx items i).page.done.length ≤ (stateAt ctx items j).page.done.length := by
  induction hle with
  | refl => exact le_rfl
  | @step j _ ih =>
    refine ih.trans ?_
    cases hj : items[j]? with
    | none => rw [stateAt_of_none hj]
    | some item => exact (adds_stateAt ctx hj).done_le

/-- What is written for an item stands on its line. -/
theorem text_lineOf (hi : items[i]? = some item) (hle : i < m) (hm : m ≤ items.length) :
    ∃ line, (stateAt ctx items m).page.lines[lineOf ctx items i]? = some line ∧
      (textAt ctx items i item).toList <:+: line.text.toList := by
  induction hle with
  | refl =>
    refine ⟨(stateAt ctx items (i + 1)).page.line, ?_, ?_⟩
    · rw [Page.lines_eq, lineOf, List.getElem?_append_right (by simp)]
      simp
    · cases adds_stateAt ctx hi with
      | onto _ hline =>
        obtain ⟨gap, hline⟩ := hline
        rw [hline, String.toList_append]
        exact (List.suffix_append _ _).isInfix
      | below _ _ hline => rw [hline]
  | @step n _ ih =>
    obtain ⟨line, hline, hinfix⟩ := ih (Nat.le_of_succ_le hm)
    obtain ⟨line', hline', hprefix⟩ := (adds_stateAt ctx (List.getElem?_eq_getElem hm)).keeps hline
    exact ⟨line', hline', hinfix.trans hprefix.isInfix⟩

include htext

/-- **What waits**: while a query has ended and nothing but comments on its line has followed, the empty
lines behind it wait. Otherwise none do. -/
theorem pending_stateAt (hm : m ≤ items.length) :
    (∀ k, Pending ctx items k m →
      (stateAt ctx items m).Resting ctx.style.linesBetweenQueries ∧
        (stateAt ctx items m).page.done.length = lineOf ctx items k) ∧
      ((∀ k, ¬Pending ctx items k m) → (stateAt ctx items m).page.blankLines = 0) := by
  induction m with
  | zero => exact ⟨fun k h => absurd h.lt (Nat.not_lt_zero k), fun _ => rfl⟩
  | succ m ih =>
    have hitem := List.getElem?_eq_getElem hm
    obtain ⟨hwaits, hnone⟩ := ih (Nat.le_of_succ_le hm)
    generalize items[m] = item at hitem
    have hprompt : (stateAt ctx items m).Prompt := State.Prompt.run (fun _ => rfl) _
    have hsound : (stateAt ctx items m).nesting.Sound :=
      State.run_sound ctx Nesting.sound_start _
    have htextm : ctx.decorate item.token.kind ((stateAt ctx items m).textOf ctx item) ≠ "" :=
      htext m item hitem
    simp only [pending_succ hitem]
    rw [stateAt_succ ctx hitem]
    constructor
    · rintro k (⟨rfl, hends⟩ | ⟨hpending, htrails⟩)
      · refine ⟨State.resting_of_endsQuery hprompt hends htextm, ?_⟩
        rw [lineOf, stateAt_succ ctx hitem]
      · obtain ⟨hresting, hline⟩ := hwaits k hpending
        obtain ⟨hdone, hrests⟩ := hresting.trails htrails htextm
        exact ⟨hrests, by rw [hdone, hline]⟩
    · intro hno
      have hends : (stateAt ctx items m).endsQuery item.token = false := by
        rw [Bool.eq_false_iff]
        exact fun hends => hno m (.inl ⟨rfl, hends⟩)
      refine State.blankLines_step hprompt hsound hends ?_
      cases htrails : item.trails with
      | false => exact .inl rfl
      | true => exact .inr (hnone fun k hpending => hno k (.inr ⟨hpending, htrails⟩))

/-- The item behind a query is written below the empty lines. -/
theorem Separates.done_eq (h : Separates ctx items k m) :
    (stateAt ctx items (m + 1)).page.done =
      List.replicate ctx.style.linesBetweenQueries (.empty 0) ++
        (stateAt ctx items m).page.line :: (stateAt ctx items m).page.done := by
  obtain ⟨item, hitem, htrails⟩ := (Option.any_eq_true ..).mp h.next
  have hm := (List.getElem?_eq_some_iff.mp hitem).1
  obtain ⟨hresting, -⟩ := (pending_stateAt htext (Nat.le_of_lt hm)).1 k h.toPending
  rw [stateAt_succ ctx hitem]
  exact hresting.starts (by simpa using htrails)

theorem Separates.lineOf_next (h : Separates ctx items k m) :
    lineOf ctx items m = lineOf ctx items k + ctx.style.linesBetweenQueries + 1 := by
  obtain ⟨item, hitem, -⟩ := (Option.any_eq_true ..).mp h.next
  have hm := (List.getElem?_eq_some_iff.mp hitem).1
  obtain ⟨-, hline⟩ := (pending_stateAt htext (Nat.le_of_lt hm)).1 k h.toPending
  rw [lineOf, h.done_eq htext, List.length_append, List.length_replicate, List.length_cons, hline]
  omega

/-- A comment on the line of a semicolon stands there. -/
theorem Separates.lineOf_trail (h : Separates ctx items k m) (hki : k < i) (him : i < m) :
    lineOf ctx items i = lineOf ctx items k := by
  obtain ⟨item, hitem, -⟩ := (Option.any_eq_true ..).mp h.next
  have hm := (List.getElem?_eq_some_iff.mp hitem).1
  have hpending : Pending ctx items k (i + 1) :=
    ⟨h.query, Nat.lt_succ_of_lt hki, fun l hkl hl => h.trail l hkl (by omega)⟩
  exact ((pending_stateAt htext (by omega)).1 k hpending).2

theorem lineOf_pending (hm : m ≤ items.length) (h : Pending ctx items k m) :
    lineOf ctx items k = (stateAt ctx items m).page.done.length :=
  ((pending_stateAt htext hm).1 k h).2.symm

/-- Below the empty lines behind a query stands what follows it. -/
theorem InGap.lt (h : InGap ctx items m j) : j < (stateAt ctx items m).page.done.length := by
  obtain ⟨k, n, hn, hseparates, -, hle⟩ := h
  have hnext := hseparates.lineOf_next htext
  have hmono := done_mono ctx items hn
  rw [← lineOf, hnext] at hmono
  omega

/-- Where a line is finished below which empty lines wait, a query is followed. -/
theorem exists_separates (hitem : items[m]? = some item)
    (hblank : 0 < (stateAt ctx items m).page.blankLines)
    (hdone : (stateAt ctx items (m + 1)).page.done ≠ (stateAt ctx items m).page.done) :
    ∃ k, Separates ctx items k m ∧
      (stateAt ctx items m).page.blankLines = ctx.style.linesBetweenQueries := by
  have hm := Nat.le_of_lt (List.getElem?_eq_some_iff.mp hitem).1
  obtain ⟨hwaits, hnone⟩ := pending_stateAt htext hm
  obtain ⟨k, hpending⟩ : ∃ k, Pending ctx items k m := by
    by_contra hno
    rw [hnone (not_exists.mp hno)] at hblank
    exact Nat.not_lt_zero _ hblank
  obtain ⟨hresting, -⟩ := hwaits k hpending
  have htrails : item.trails = false := by
    rw [Bool.eq_false_iff]
    intro htrails
    refine hdone ?_
    rw [stateAt_succ ctx hitem]
    exact (hresting.trails htrails (htext m item hitem)).1
  exact ⟨k, ⟨hpending, by simp [hitem, htrails]⟩, hresting.blankLines⟩

/-- **The empty lines** among those that are finished are the ones behind queries. They have no anchors. -/
theorem empty_done (hm : m ≤ items.length) {line : Line}
    (hline : (stateAt ctx items m).page.done.reverse[j]? = some line) :
    (line.text = "" ↔ InGap ctx items m j) ∧ (line.text = "" → line.anchors = []) := by
  induction m generalizing j line with
  | zero => cases hline
  | succ m ih =>
    have hitem := List.getElem?_eq_getElem hm
    have hle := Nat.le_of_succ_le hm
    have hhere : ∀ {k}, Separates ctx items k m →
        lineOf ctx items k = (stateAt ctx items m).page.done.length :=
      fun h => lineOf_pending htext hle h.toPending
    cases adds_stateAt ctx hitem with
    | onto hdone _ =>
      -- the line goes on, so that no query is followed here
      have hnone : ¬∃ k, Separates ctx items k m ∧ lineOf ctx items k < j ∧
          j ≤ lineOf ctx items k + ctx.style.linesBetweenQueries := by
        rintro ⟨k, hseparates, -⟩
        have hlength := congrArg List.length (hseparates.done_eq htext)
        rw [hdone, List.length_append, List.length_cons] at hlength
        omega
      rw [hdone] at hline
      rw [inGap_succ, or_iff_left hnone]
      exact ih hle hline
    | below hwritten hdone _ =>
      have hgrows : (stateAt ctx items (m + 1)).page.done ≠ (stateAt ctx items m).page.done := by
        intro hsame
        have hlength := congrArg List.length (hsame.symm.trans hdone)
        rw [List.length_append, List.length_cons] at hlength
        omega
      rw [hdone, List.reverse_append, List.reverse_cons, List.reverse_replicate] at hline
      rcases Nat.lt_trichotomy j (stateAt ctx items m).page.done.length with hlt | heq | hgt
      · -- a line that was finished before
        have hnone : ¬∃ k, Separates ctx items k m ∧ lineOf ctx items k < j ∧
            j ≤ lineOf ctx items k + ctx.style.linesBetweenQueries := by
          rintro ⟨k, hseparates, hj, -⟩
          rw [hhere hseparates] at hj
          omega
        rw [List.append_assoc, List.getElem?_append_left (by simpa using hlt)] at hline
        rw [inGap_succ, or_iff_left hnone]
        exact ih hle hline
      · -- the line that is finished now
        rw [List.getElem?_append_left (by simp [heq]),
          List.getElem?_append_right (by simp [heq])] at hline
        obtain rfl : (stateAt ctx items m).page.line = line := by simpa [heq] using hline
        refine ⟨iff_of_false hwritten ?_, fun h => absurd h hwritten⟩
        rw [inGap_succ]
        rintro (hbefore | ⟨k, hseparates, hj, -⟩)
        · exact absurd (hbefore.lt htext) (by omega)
        · rw [hhere hseparates] at hj
          omega
      · -- an empty line, so that a query waits for what follows it
        rw [List.getElem?_append_right (by simpa using hgt), List.getElem?_replicate] at hline
        split at hline
        · next hindex =>
          obtain rfl : Line.empty 0 = line := Option.some.inj hline
          refine ⟨iff_of_true rfl ?_, fun _ => rfl⟩
          obtain ⟨k, hseparates, hblank⟩ :=
            exists_separates htext hitem (Nat.zero_lt_of_lt hindex) hgrows
          have hline := hhere hseparates
          rw [hblank] at hindex
          simp only [List.length_append, List.length_reverse, List.length_singleton] at hindex
          exact inGap_succ.mpr (.inr ⟨k, hseparates, by omega, by omega⟩)
        · cases hline

end Run

/-! ## The lines of a layout -/

/-- The empty lines of a layout are the ones behind queries. Of each query that anything follows there is
one run of them, directly below the line of its semicolon. -/
structure Spaced (ctx : Context) (items : List Item) (lines : List Line) : Prop where
  /-- What is written for an item stands on its line. -/
  text : ∀ i item, items[i]? = some item → ∃ line, lines[lineOf ctx items i]? = some line ∧
    (textAt ctx items i item).toList.Sublist line.text.toList
  empty_iff : ∀ j line, lines[j]? = some line → (line.text = "" ↔
    ∃ k m, Separates ctx items k m ∧ lineOf ctx items k < j ∧
      j ≤ lineOf ctx items k + ctx.style.linesBetweenQueries)
  trail : ∀ k m, Separates ctx items k m → ∀ i, k < i → i < m →
    lineOf ctx items i = lineOf ctx items k
  next : ∀ k m, Separates ctx items k m →
    lineOf ctx items m = lineOf ctx items k + ctx.style.linesBetweenQueries + 1
  apart : ∀ k m k' m', Separates ctx items k m → Separates ctx items k' m' → k < k' →
    lineOf ctx items k + ctx.style.linesBetweenQueries < lineOf ctx items k'

/-- The page behind the last item has empty lines where queries have been followed. -/
theorem empty_page (htext : ∀ i item, items[i]? = some item → textAt ctx items i item ≠ "")
    (hitems : items ≠ []) {line : Line}
    (hline : (stateAt ctx items items.length).page.lines[j]? = some line) :
    (line.text = "" ↔ InGap ctx items items.length j) ∧ (line.text = "" → line.anchors = []) := by
  rw [Page.lines_eq] at hline
  rcases Nat.lt_or_ge j (stateAt ctx items items.length).page.done.reverse.length with hlt | hge
  · rw [List.getElem?_append_left hlt] at hline
    exact empty_done htext le_rfl hline
  · rw [List.getElem?_append_right hge, List.getElem?_singleton] at hline
    split at hline
    · obtain rfl : (stateAt ctx items items.length).page.line = line := Option.some.inj hline
      -- the last item has been written on this line
      obtain ⟨m, hm⟩ := Nat.exists_eq_succ_of_ne_zero (List.length_pos_of_ne_nil hitems).ne'
      have hlast : items[m]? = some items[m] := List.getElem?_eq_getElem (by omega)
      have hne : (stateAt ctx items items.length).page.line.text ≠ "" := by
        rw [hm]
        exact (adds_stateAt ctx hlast).line_ne (htext m _ hlast)
      refine ⟨iff_of_false hne fun hgap => ?_, fun h => absurd h hne⟩
      have hlt := hgap.lt htext
      rw [List.length_reverse] at hge
      omega
    · cases hline

/-- What alignment makes of a line: it keeps its text, and without anchors the line stays as it is. -/
structure Line.Aligns (line aligned : Line) : Prop where
  keeps : line.Keeps aligned
  anchors : aligned.anchors = line.anchors
  plain : line.anchors = [] → aligned = line

theorem Alignment.tolerant_aligns : Tolerant Line.Aligns where
  refl line := ⟨.refl line, rfl, fun _ => rfl⟩
  trans h h' := by
    refine ⟨List.Sublist.trans h.keeps h'.keeps, h'.anchors.trans h.anchors, fun hnone => ?_⟩
    rw [h'.plain (h.anchors.trans hnone), h.plain hnone]
  pad := by
    intro line aligned a offset count ha hpad
    refine ⟨tolerant_keeps.pad ha hpad, ?_, fun h => ?_⟩
    · obtain ⟨cs, -, rfl⟩ := Option.map_eq_some_iff.mp hpad
      rfl
    · rw [h] at ha
      cases ha

theorem Line.Aligns.empty_iff {line aligned : Line} (h : line.Aligns aligned)
    (hplain : line.text = "" → line.anchors = []) : aligned.text = "" ↔ line.text = "" := by
  constructor
  · intro hempty
    have hkeeps := h.keeps
    rw [Line.Keeps, hempty] at hkeeps
    exact String.toList_eq_nil_iff.mp (List.sublist_nil.mp hkeeps)
  · intro hempty
    rw [h.plain (hplain hempty), hempty]

theorem rel_getElem? {α β : Type} {r : α → β → Prop} {as : List α} {bs : List β}
    (h : List.Forall₂ r as bs) (j : Nat) : Option.Rel r as[j]? bs[j]? := by
  induction h generalizing j with
  | nil => exact .none
  | cons hab _ ih =>
    cases j with
    | zero => exact .some hab
    | succ j => simpa using ih j

theorem textAt_ofTokens_ne (hdecorate : ∀ kind text, text ≠ "" → ctx.decorate kind text ≠ "")
    {tokens : List Token} (hvisible : ∀ t ∈ tokens, t.kind ≠ .whitespace → Visible t.text.toList) :
    ∀ i item, (Item.ofTokens tokens)[i]? = some item →
      textAt ctx (Item.ofTokens tokens) i item ≠ "" := by
  intro i item hi
  obtain ⟨hmem, hkind⟩ := Item.mem_of_mem_ofTokens (List.mem_of_getElem? hi)
  exact hdecorate _ _ (State.textOf_ne_empty ctx _ (hvisible _ hmem hkind))

/-- The lines that alignment makes of the page behind the last item. -/
theorem spaced_of_aligned (htext : ∀ i item, items[i]? = some item → textAt ctx items i item ≠ "")
    (hitems : items ≠ []) {lines : List Line}
    (haligned : List.Forall₂ Line.Aligns (stateAt ctx items items.length).page.lines lines) :
    Spaced ctx items lines where
  text i item hi := by
    obtain ⟨line, hline, hinfix⟩ := text_lineOf hi (List.getElem?_eq_some_iff.mp hi).1 le_rfl
    have hrel := rel_getElem? haligned (lineOf ctx items i)
    rw [hline] at hrel
    generalize lines[lineOf ctx items i]? = found at hrel ⊢
    cases hrel with
    | some haligns => exact ⟨_, rfl, hinfix.sublist.trans haligns.keeps⟩
  empty_iff j line hline := by
    have hrel := rel_getElem? haligned j
    rw [hline] at hrel
    generalize hbase : (stateAt ctx items items.length).page.lines[j]? = base at hrel
    cases hrel with
    | some haligns =>
      obtain ⟨hempty, hplain⟩ := empty_page htext hitems hbase
      rw [haligns.empty_iff hplain, hempty]
      constructor
      · rintro ⟨k, n, -, hrest⟩
        exact ⟨k, n, hrest⟩
      · rintro ⟨k, n, hseparates, hrest⟩
        obtain ⟨item, hitem, -⟩ := (Option.any_eq_true ..).mp hseparates.next
        exact ⟨k, n, (List.getElem?_eq_some_iff.mp hitem).1, hseparates, hrest⟩
  trail _ _ h _ := h.lineOf_trail htext
  next _ _ h := h.lineOf_next htext
  apart k m k' m' h h' hlt := by
    have hmono : lineOf ctx items m ≤ lineOf ctx items k' :=
      done_mono ctx items (Nat.succ_le_succ (h.le h' hlt))
    rw [h.lineOf_next htext] at hmono
    exact hmono

/-- **Empty lines between queries**: whatever tokens are laid out, if each of them can be seen, then empty
lines stand behind the queries that anything follows, as many as the style wants, and nowhere else. -/
theorem spaced_lines (ctx : Context) {tokens : List Token} {lines : List Line}
    (hdecorate : ∀ kind text, text ≠ "" → ctx.decorate kind text ≠ "")
    (hsome : ∃ t ∈ tokens, t.kind ≠ .whitespace)
    (hvisible : ∀ t ∈ tokens, t.kind ≠ .whitespace → Visible t.text.toList)
    (halign : Alignment.alignAll? ctx.style (linesOf ctx tokens) = some lines) :
    Spaced ctx (Item.ofTokens tokens) lines := by
  have hpage : linesOf ctx tokens =
      (stateAt ctx (Item.ofTokens tokens) (Item.ofTokens tokens).length).page.lines := by
    rw [linesOf, stateAt, List.take_length]
  have hitems : Item.ofTokens tokens ≠ [] := by
    obtain ⟨t, ht, hkind⟩ := hsome
    have hmem : t ∈ (Item.ofTokens tokens).map (·.token) := by
      rw [Item.map_token_ofTokens]
      exact List.mem_filter.mpr ⟨ht, by simpa using hkind⟩
    exact fun hnil => List.ne_nil_of_mem hmem (by rw [hnil, List.map_nil])
  have haligned := Alignment.tolerant_aligns.alignAll halign
  rw [hpage] at haligned
  exact spaced_of_aligned (textAt_ofTokens_ne hdecorate hvisible) hitems haligned

/-- Two queries with a comment on the line of the semicolon between them, and a block with a semicolon
of its own. -/
theorem spaced_lines_block :
    let ctx : Context := ⟨.standard, .postgresql, fun _ text => text⟩
    let tokens := tokenize Dialect.postgresql.lexicon "a; -- b\nBEGIN c; END; d"
    Spaced ctx (Item.ofTokens tokens) (linesOf ctx tokens) := by
  intro ctx tokens
  exact spaced_lines ctx (fun _ _ h => h) (by decide +kernel) (by decide +kernel) rfl

end SqlFormat.Layout

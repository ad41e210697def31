import Mathlib
import SqlFormat.Proofs.Layout.Bare
import SqlFormat.Proofs.Layout.Closers
import SqlFormat.Proofs.Layout.Join

/-!
# What is written stays

Layout only ever adds to the end of a page. Of what it has written it takes back the white space at
the end of a line, when the line is finished, and nothing else. So what is on the page after some
token, up to a character that is not white space, is how the output begins.

Results: `prefix_stateAt`, `exists_layout_prefix`.
-/

namespace SqlFormat.Layout

open Text

variable {unit : String} {page : Page} {line : Line} {before : List Char}

/-! ## Pages -/

/-- What a page shows so far: the finished lines as they are rendered, and the line that is being
written. -/
def Page.upTo (unit : String) (page : Page) : List Char :=
  feedLines unit page.done.reverse ++ page.line.chars unit

/-- White space behind a text has no part in its trimmed beginnings. -/
theorem prefix_of_trimmed {a w : List Char} (h : before <+: a ++ w) (htrimmed : Trimmed before)
    (hw : AllWhite w) : before <+: a := by
  obtain ⟨rest, hrest⟩ := h
  rcases List.append_eq_append_iff.mp hrest with ⟨mid, rfl, -⟩ | ⟨mid, rfl, rfl⟩
  · exact List.prefix_append before mid
  · -- `before` goes on into the white space, so that trimming it leaves a part of `a`
    have hmid : AllWhite mid := fun c hc => hw c (List.mem_append_left rest hc)
    have hsame : dropWhileEnd isWhite a = a ++ mid := by
      rw [← dropWhileEnd_append_white a hmid]
      exact htrimmed
    obtain ⟨dropped, hdropped, -⟩ := dropWhileEnd_spec isWhite a
    rw [← hsame]
    exact ⟨dropped, hdropped.symm⟩

/-- Finishing a line takes white space only. -/
theorem prefix_renderLine {a : List Char} (h : before <+: a ++ line.chars unit)
    (htrimmed : Trimmed before) : before <+: a ++ (renderLine unit line).toList := by
  rw [toList_renderLine]
  unfold Line.chars at h
  split at h
  · rw [List.append_nil] at h
    exact h.trans (List.prefix_append _ _)
  · obtain ⟨w, hsplit, hw⟩ := dropWhileEnd_spec isWhite line.text.toList
    rw [hsplit, ← List.append_assoc, ← List.append_assoc] at h
    have hkept := prefix_of_trimmed h htrimmed hw
    rw [if_neg (by assumption), ← List.append_assoc, ← List.append_assoc]
    exact hkept.trans (List.prefix_append _ _)

namespace Page

theorem upTo_write (unit : String) (page : Page) (text : String) (width : Nat) :
    page.upTo unit <+: (page.write text width).upTo unit := by
  refine List.prefix_append_right_inj _ |>.mpr ?_
  by_cases hempty : page.line.text = ""
  · rw [Line.chars_empty hempty]
    exact List.nil_prefix
  · have hline : page.line.text ++ text ≠ "" := by
      rw [Ne, ← String.toList_inj, String.toList_append]
      simp [hempty]
    rw [Line.chars_of_ne hempty, write, Line.chars_of_ne hline, String.toList_append,
      ← List.append_assoc]
    exact List.prefix_append _ _

theorem upTo_settle (unit : String) (page : Page) (settled : Option Nat) (lines : Nat) :
    (page.settle settled lines).upTo unit = page.upTo unit := by
  cases settled <;> rfl

theorem upTo_note (unit : String) (page : Page) (anchor : Option (AnchorKind × Nat)) :
    (page.note anchor).upTo unit = page.upTo unit := by
  cases anchor <;> rfl

theorem upTo_place (unit : String) (page : Page) (placed : Option Nat) :
    (page.place placed).upTo unit = page.upTo unit := by
  cases placed <;> rfl

theorem prefix_advance (h : before <+: page.upTo unit) (htrimmed : Trimmed before) (space : Bool) :
    before <+: (page.advance space).upTo unit := by
  unfold advance
  cases page.breakAt with
  | none =>
    simp only
    split
    · exact h.trans (upTo_write unit page " " 1)
    · exact h
  | some indent =>
    simp only
    by_cases hempty : page.line.text = ""
    · rw [if_pos (by simp [hempty])]
      have hline : ∀ line : Line, line.text = "" →
          before <+: feedLines unit page.done.reverse ++ line.chars unit := by
        intro line hline
        rw [upTo, Line.chars_empty hempty] at h
        rwa [Line.chars_empty hline]
      exact hline _ hempty
    · rw [if_neg (by simpa using hempty)]
      have hline := prefix_renderLine h htrimmed
      have hdone : feedLines unit (List.replicate page.blankLines (Line.empty 0) ++
          page.line :: page.done).reverse =
            feedLines unit page.done.reverse ++ (renderLine unit page.line).toList ++
              List.replicate page.blankLines '\n' := by
        rw [List.reverse_append, List.reverse_cons, List.reverse_replicate, feedLines_append,
          feedLines_append, feedLines_empty]
        simp [feedLines]
      rw [upTo, hdone, List.append_assoc]
      exact hline.trans (List.prefix_append _ _)

/-- The lines of the page, once all of them are rendered. -/
theorem prefix_render (h : before <+: page.upTo unit) (htrimmed : Trimmed before) :
    before <+: (render unit page.lines).toList := by
  have hline := prefix_renderLine h htrimmed
  have hlines : feedLines unit page.lines =
      feedLines unit page.done.reverse ++ (renderLine unit page.line).toList := by
    rw [lines, List.reverse_cons, feedLines_append]
    simp [feedLines]
  rw [← hlines] at hline
  rw [Layout.toList_render]
  obtain ⟨w, hsplit, hw⟩ := dropWhileEnd_spec isWhite (feedLines unit page.lines)
  rw [hsplit] at hline
  exact prefix_of_trimmed hline htrimmed hw

end Page

/-! ## Runs -/

variable {ctx : Context} {s : State} {items : List Item}

theorem prefix_written (h : before <+: s.page.upTo unit) (htrimmed : Trimmed before) (item : Item)
    (placed : Option Nat) (anchor : Option (AnchorKind × Nat)) :
    before <+: (s.written ctx item placed anchor).upTo unit := by
  rw [← Page.upTo_place unit s.page placed] at h
  have hadvance := Page.prefix_advance h htrimmed (s.spaceBefore ctx item)
  rw [← Page.upTo_note unit _ anchor] at hadvance
  exact hadvance.trans (Page.upTo_write unit _ _ _)

/-- A token leaves what is on the page. -/
theorem prefix_step (h : before <+: s.page.upTo unit) (htrimmed : Trimmed before) (item : Item) :
    before <+: (s.step ctx item).page.upTo unit := by
  unfold State.step
  split
  · rw [State.comment_eq]
    have hbroken : before <+: (s.broken item).page.upTo unit := by
      unfold State.broken
      split <;> exact h
    have hpage : before <+: (s.commentPage item).upTo unit := by
      unfold State.commentPage
      split
      · exact h.trans (Page.upTo_write unit s.page " " 1)
      · exact Page.prefix_advance hbroken htrimmed true
    have hwritten : before <+: (s.commentWritten ctx item).upTo unit :=
      hpage.trans (Page.upTo_write unit _ _ _)
    simp only
    split <;> exact hwritten
  · rw [State.significant_eq]
    simp only [State.decided, Page.upTo_settle]
    exact prefix_written h htrimmed item _ _

theorem prefix_run (h : before <+: s.page.upTo unit) (htrimmed : Trimmed before)
    (items : List Item) : before <+: (s.run ctx items).page.upTo unit := by
  induction items generalizing s with
  | nil => exact h
  | cons item items ih => exact ih (prefix_step h htrimmed item)

/-- What is on the page before some token is there in the end. -/
theorem prefix_stateAt {k : Nat} (h : before <+: (stateAt ctx items k).page.upTo unit)
    (htrimmed : Trimmed before) :
    before <+: (render unit (State.start.run ctx items).page.lines).toList := by
  have hsplit : State.start.run ctx items = (stateAt ctx items k).run ctx (items.drop k) := by
    rw [stateAt, State.run, State.run, State.run, ← List.foldl_append, List.take_append_drop]
  rw [hsplit]
  exact Page.prefix_render (prefix_run h htrimmed _) htrimmed

/-- Where nothing is lined up, the output begins with what is on the page before some token. -/
theorem exists_layout_prefix (ctx : Context) {tokens : List Token} {k : Nat}
    (halign : ctx.style = ctx.style.unaligned)
    (h : before <+: (stateAt ctx (Item.ofTokens tokens) k).page.upTo ctx.style.indent)
    (htrimmed : Trimmed before) :
    ∃ out, layout? ctx tokens = some out ∧ before <+: out.toList := by
  have hnone : Alignment.alignAll? ctx.style (linesOf ctx tokens) = some (linesOf ctx tokens) := by
    rw [halign]
    rfl
  refine ⟨_, ?_, prefix_stateAt h htrimmed⟩
  rw [layout?, hnone, Option.map_some]
  rfl

end SqlFormat.Layout

import Mathlib
import SqlFormat.Proofs.Layout.Recase
import SqlFormat.Proofs.Layout.Written

/-!
# Columns

Layout keeps count of the columns of the line that it writes. Where nothing is coloured the count is
right: it is the number of characters after the last line feed. With the indentation it bounds what
stands on the last line of the output so far; a line that goes on after a line feed in a token is
shorter, since it is not indented.

A token takes at most the columns that its group has been measured with, together with the space
before it.

Results: `measured_run`, `lastWidth_upTo_le`, `reach_written_le`, `length_displayText_lt`.
-/

namespace SqlFormat.Layout

open Text

/-! ## The width of the last line -/

/-- The number of characters after the last line feed. -/
def lastWidth (cs : List Char) : Nat :=
  (cs.reverse.takeWhile (· != '\n')).length

theorem lastLineWidth_eq (s : String) : State.lastLineWidth s = lastWidth s.toList := rfl

theorem lastWidth_le (cs : List Char) : lastWidth cs ≤ cs.length := by
  rw [lastWidth, ← @List.length_reverse _ cs]
  exact (List.takeWhile_prefix _).length_le

/-- What stands before a line feed does not count. -/
theorem lastWidth_append_of_mem (a : List Char) {b : List Char} (h : '\n' ∈ b) :
    lastWidth (a ++ b) = lastWidth b := by
  have hstop : ∃ c ∈ b.reverse, ¬(c != '\n') = true := ⟨'\n', by simpa using h, by simp⟩
  rw [lastWidth, lastWidth, List.reverse_append, List.takeWhile_append, if_neg]
  intro hall
  obtain ⟨c, hc, hfeed⟩ := hstop
  exact hfeed (List.takeWhile_eq_self_iff.mp
    ((List.takeWhile_prefix _).eq_of_length hall) c hc)

theorem lastWidth_append_of_notMem (a : List Char) {b : List Char} (h : '\n' ∉ b) :
    lastWidth (a ++ b) = lastWidth a + b.length := by
  have hall : ∀ c ∈ b.reverse, (c != '\n') = true := by
    intro c hc
    have hne : c ≠ '\n' := fun heq => h (heq ▸ List.mem_reverse.mp hc)
    simpa using hne
  rw [lastWidth, List.reverse_append, List.takeWhile_append_of_pos hall, List.length_append,
    List.length_reverse, lastWidth, Nat.add_comm]

theorem lastWidth_of_notMem {b : List Char} (h : '\n' ∉ b) : lastWidth b = b.length :=
  (lastWidth_append_of_notMem [] h).trans (Nat.zero_add _)

theorem lastWidth_append_le (a b : List Char) : lastWidth (a ++ b) ≤ a.length + lastWidth b := by
  by_cases h : '\n' ∈ b
  · rw [lastWidth_append_of_mem a h]
    exact Nat.le_add_left _ _
  · rw [lastWidth_append_of_notMem a h, lastWidth_of_notMem h]
    exact Nat.add_le_add_right (lastWidth_le a) _

/-- Rendered lines end with a line feed. -/
theorem lastWidth_feedLines (unit : String) (lines : List Line) (cs : List Char) :
    lastWidth (feedLines unit lines ++ cs) = lastWidth cs := by
  have hzero : lastWidth (feedLines unit lines) = 0 := by
    rcases List.eq_nil_or_concat lines with rfl | ⟨init, line, rfl⟩
    · rfl
    · rw [List.concat_eq_append, feedLines_append, feedLines, feedLines, List.flatMap_singleton,
        toList_renderLine, ← List.append_assoc, lastWidth_append_of_mem _ (by simp)]
      rfl
  by_cases h : '\n' ∈ cs
  · exact lastWidth_append_of_mem _ h
  · rw [lastWidth_append_of_notMem _ h, lastWidth_of_notMem h, hzero, Nat.zero_add]

/-! ## The count of columns -/

namespace Page

/-- The columns of the line that is being written are counted right. -/
def Measured (page : Page) : Prop :=
  page.line.width = lastWidth page.line.text.toList

/-- The column that the line being written has reached. -/
def reach (unit : Nat) (page : Page) : Nat :=
  page.line.indent * unit + page.line.width

variable {page : Page}

theorem Measured.width_eq_zero (h : page.Measured) (hempty : page.line.text = "") :
    page.line.width = 0 := by
  rw [h, hempty]
  rfl

theorem Measured.place (h : page.Measured) (placed : Option Nat) :
    (page.place placed).Measured := by
  cases placed <;> exact h

theorem Measured.settle (h : page.Measured) (settled : Option Nat) (lines : Nat) :
    (page.settle settled lines).Measured := by
  cases settled <;> exact h

theorem Measured.note (h : page.Measured) (anchor : Option (AnchorKind × Nat)) :
    (page.note anchor).Measured := by
  cases anchor <;> exact h

/-- Text is measured by its last line. -/
theorem Measured.write (h : page.Measured) (text : String) :
    (page.write text (State.lastLineWidth text)).Measured := by
  unfold Measured Page.write
  rw [lastLineWidth_eq, String.toList_append]
  by_cases hfeed : '\n' ∈ text.toList
  · rw [if_pos (List.contains_iff_mem.mpr hfeed), lastWidth_append_of_mem _ hfeed]
  · rw [if_neg (by simpa using hfeed), lastWidth_append_of_notMem _ hfeed,
      lastWidth_of_notMem hfeed, h]

theorem Measured.advance (h : page.Measured) (space : Bool) : (page.advance space).Measured := by
  unfold Page.advance
  cases page.breakAt with
  | none =>
    simp only
    split
    · exact h.write " "
    · exact h
  | some indent =>
    simp only
    split
    · exact h
    · rfl

/-- The last line of what a page shows is no longer than the column that was counted. -/
theorem lastWidth_upTo_le (h : page.Measured) (style : Style) :
    lastWidth (page.upTo style.indent) ≤ page.reach style.indentWidth := by
  rw [upTo, lastWidth_feedLines]
  by_cases hempty : page.line.text = ""
  · rw [Line.chars_empty hempty]
    exact Nat.zero_le _
  · have hmargin : (margin style.indent page.line.indent).length ≤
        page.line.indent * style.indentWidth := by
      rw [margin, String.toList_join, List.length_flatMap, List.map_replicate, List.sum_replicate,
        smul_eq_mul]
      exact Nat.mul_le_mul_left _ (le_max_right 1 _)
    calc lastWidth (page.line.chars style.indent)
        = lastWidth (margin style.indent page.line.indent ++ page.line.text.toList) := by
          rw [Line.chars_of_ne hempty]
      _ ≤ (margin style.indent page.line.indent).length + lastWidth page.line.text.toList :=
          lastWidth_append_le _ _
      _ ≤ page.reach style.indentWidth := by
          rw [reach, h]
          exact Nat.add_le_add_right hmargin _

/-- What is reached when the next text can be written. -/
theorem reach_advance_le (h : page.Measured) (unit : Nat) (space : Bool) :
    (page.advance space).reach unit ≤ page.column unit + (!page.atLineStart).toNat := by
  unfold Page.advance Page.column Page.atLineStart
  cases hbreak : page.breakAt with
  | none =>
    simp only [Option.isSome_none, Bool.false_or]
    split
    · next hspace =>
      have hline : page.line.text.isEmpty = false := by
        simp only [Bool.and_eq_true, Bool.not_eq_true'] at hspace
        exact hspace.2
      rw [hline]
      exact le_rfl
    · exact Nat.le_add_right _ _
  | some indent =>
    simp only
    split
    · next hempty =>
      rw [reach, h.width_eq_zero (by simpa using hempty)]
      exact Nat.le_add_right _ _
    · exact Nat.le_add_right _ _

theorem reach_write_le (page : Page) (unit : Nat) (text : String) :
    (page.write text (State.lastLineWidth text)).reach unit ≤ page.reach unit + text.length := by
  have hwidth : State.lastLineWidth text ≤ text.length := lastWidth_le text.toList
  unfold reach Page.write
  simp only
  split <;> omega

end Page

/-! ## Runs -/

variable {ctx : Context} {s : State} {item : Item}

theorem measured_written (hplain : ctx.decorate = fun _ text => text) (h : s.page.Measured)
    (item : Item) (placed : Option Nat) (anchor : Option (AnchorKind × Nat)) :
    (s.written ctx item placed anchor).Measured := by
  rw [State.written, hplain]
  exact (((h.place placed).advance _).note anchor).write _

theorem measured_step (hplain : ctx.decorate = fun _ text => text) (h : s.page.Measured)
    (item : Item) : (s.step ctx item).page.Measured := by
  unfold State.step
  split
  · rw [State.comment_eq]
    have hbroken : (s.broken item).page.Measured := by
      unfold State.broken
      split <;> exact h
    have hpage : (s.commentPage item).Measured := by
      unfold State.commentPage
      split
      · exact h.write " "
      · exact hbroken.advance true
    have hwritten : (s.commentWritten ctx item).Measured := by
      rw [State.commentWritten, hplain]
      exact hpage.write _
    simp only
    split <;> exact hwritten
  · rw [State.significant_eq]
    exact (measured_written hplain h item _ _).settle _ _

/-- The columns are counted right after all tokens. -/
theorem measured_run (hplain : ctx.decorate = fun _ text => text) (h : s.page.Measured)
    (items : List Item) : (s.run ctx items).page.Measured := by
  induction items generalizing s with
  | nil => exact h
  | cons item items ih => exact ih (measured_step hplain h item)

/-- A token that stays on the line takes the columns of its text and of one space, if it is not the
first on the line. -/
theorem reach_written_le (hplain : ctx.decorate = fun _ text => text) (h : s.page.Measured)
    (unit : Nat) (item : Item) (anchor : Option (AnchorKind × Nat)) :
    (s.written ctx item none anchor).reach unit ≤
      s.page.column unit + (!s.page.atLineStart).toNat +
        (State.displayText ctx item.token).length := by
  have hadvance := Page.reach_advance_le h unit (s.spaceBefore ctx item)
  have hnote : ∀ page : Page, (page.note anchor).reach unit = page.reach unit := by
    intro page
    cases anchor <;> rfl
  rw [State.written, hplain]
  refine (Page.reach_write_le _ unit _).trans (Nat.add_le_add_right ?_ _)
  rw [hnote]
  exact hadvance

/-! ## The width of a token -/

/-- What is written for a token is shorter than the width that its group has been measured with. -/
theorem length_displayText_lt (ctx : Context) {token : Token} (hkind : token.kind ≠ .whitespace)
    (hphrase : token.IsPhrase) : (State.displayText ctx token).length < token.width := by
  have hwidth : token.width =
      (if token.kind.isReserved then token.keyText.length else token.text.length) + 1 := by
    rw [Token.width, if_neg (by simpa using hkind)]
    split <;> rfl
  rw [hwidth, Nat.lt_succ_iff, State.displayText]
  cases hkey : token.isKeyword with
  | false =>
    have hreserved : token.kind.isReserved = false := by
      rw [Token.isKeyword, Bool.or_eq_false_iff] at hkey
      exact hkey.1
    simp [hreserved]
  | true =>
    obtain ⟨ws, hws⟩ := hphrase hkey
    have htext := Lexer.toList_normalizePhrase hws
    rw [String.ofList_toList] at htext
    have hascii : ∀ c ∈ (normalizePhrase token.text).toList, c.toNat < 128 := by
      rw [htext]
      exact hws.ascii_intercalate
    have hlength : ∀ case : KeywordCase, (case.apply (normalizePhrase token.text)).length =
        ([' '].intercalate ws).length := by
      intro case
      rw [← String.length_toList, KeywordCase.toList_apply case hascii, List.length_map, htext]
    rw [if_pos rfl, hlength]
    split
    · rw [Token.keyText, phraseKey, lowerAscii, String.length_ofList, List.length_map, htext]
    · exact hws.length_intercalate_le

end SqlFormat.Layout

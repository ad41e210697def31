import Mathlib
import SqlFormat.Proofs.Layout.Turn
import SqlFormat.Proofs.Text.Lowered
import SqlFormat.Proofs.Token.Lossless

/-!
# Drafts

A draft is a line of which it is still open in which case the keywords are written: every character
of it knows who wrote it, and is shown as it is unless that was a keyword. Whatever layout does to a
page it does to the drafts of its lines, so the pages of all cases show the same drafts.

What drafts hold beside spaces, comments and colour are the characters of the tokens, in their
order. White space does not count there, since layout puts it in and takes it away.

Results: `Page.Cased.advance`, `Page.Cased.write`.
-/

namespace SqlFormat

open Text

/-! ## Characters in a case -/

/-- What does not tell `A` from `a` tells no two cases of a keyword apart. -/
theorem IgnoresCase.letter {α : Type} {f : Char → α} (h : IgnoresCase f) (case : KeywordCase)
    (c : Char) : f (case.letter c) = f c := by
  have hlower : (case.letter c).toLower = c.toLower := by
    cases case with
    | preserve => rfl
    | dialect => rfl
    | lower => exact ignoresCase_toLower c
    | upper =>
      by_cases hc : c.toNat < 128
      · exact (KeywordCase.keeps .upper hc).toLower
      · -- beyond ASCII there is no second case
        have hnot : ¬c.isLower = true := by
          intro hl
          exact hc (isKeywordChar_lt (by simp [isKeywordChar, Char.isAlphanum, Char.isAlpha, hl]))
        have hupper : c.toUpper = c := dif_neg (by simpa [Char.isLower] using hnot)
        rw [KeywordCase.letter, hupper]
  calc f (case.letter c) = f (case.letter c).toLower := (h _).symm
    _ = f c.toLower := by rw [hlower]
    _ = f c := h c

namespace Layout

/-- Who wrote a character. -/
inductive Ink where
  | keyword
  /-- A token that is neither a keyword nor a comment. -/
  | token
  /-- A comment, or layout itself. -/
  | layout
deriving DecidableEq, Repr

/-- A character of a draft. -/
structure Cell where
  char : Char
  ink : Ink
deriving DecidableEq, Repr

namespace Cell

/-- The character as it is shown, keywords being written in this case. -/
def shown (case : KeywordCase) (c : Cell) : Char :=
  match c.ink with
  | .keyword => case.letter c.char
  | .token | .layout => c.char

/-- A character of a token, other than white space. -/
def isMark (c : Cell) : Bool :=
  c.ink != .layout && !isWhite c.char

/-- The characters of a text, all from one writer. -/
def all (ink : Ink) (cs : List Char) : List Cell :=
  cs.map (⟨·, ink⟩)

/-- The characters of tokens among some. -/
def marks (cells : List Cell) : List Cell :=
  cells.filter isMark

variable {cells : List Cell}

theorem apply_shown {α : Type} {f : Char → α} (h : IgnoresCase f) (case : KeywordCase) (c : Cell) :
    f (c.shown case) = f c.char := by
  unfold shown
  cases c.ink with
  | keyword => exact h.letter case c.char
  | token => rfl
  | layout => rfl

theorem map_apply_shown {α : Type} {f : Char → α} (h : IgnoresCase f) (case : KeywordCase)
    (cells : List Cell) : (cells.map (·.shown case)).map f = cells.map (f ·.char) := by
  rw [List.map_map]
  exact List.map_congr_left fun c _ => apply_shown h case c

theorem contains_shown {c : Char} (hc : c.isAlpha = false) (case : KeywordCase)
    (cells : List Cell) : (cells.map (·.shown case)).contains c = cells.any (c == ·.char) := by
  have hmap := map_apply_shown (ignoresCase_eq hc) case cells
  have hany : ∀ l : List Char, l.contains c = (l.map (· == c)).any id := by
    intro l
    rw [List.any_map, List.contains_eq_any_beq]
    exact congrArg (l.any ·) (funext fun d => Bool.beq_comm)
  rw [hany, hmap, List.any_map]
  exact congrArg (cells.any ·) (funext fun d => Bool.beq_comm)

theorem byteLength_shown (case : KeywordCase) (cells : List Cell) :
    byteLength (cells.map (·.shown case)) = byteLength (cells.map (·.char)) := by
  induction cells with
  | nil => rfl
  | cons c cells ih =>
    rw [List.map_cons, List.map_cons, byteLength, byteLength, apply_shown ignoresCase_utf8Size, ih]

/-- What is not written by a keyword is the same in every case. -/
theorem map_shown_all {ink : Ink} (hink : ink ≠ .keyword) (case : KeywordCase) (cs : List Char) :
    (all ink cs).map (·.shown case) = cs := by
  rw [all, List.map_map]
  refine List.map_id'' (fun c => ?_) cs
  cases ink with
  | keyword => exact absurd rfl hink
  | token => rfl
  | layout => rfl

theorem map_shown_keyword (case : KeywordCase) (cs : List Char) :
    (all .keyword cs).map (·.shown case) = cs.map case.letter := by
  rw [all, List.map_map]
  rfl

@[simp] theorem marks_append (first second : List Cell) :
    marks (first ++ second) = marks first ++ marks second :=
  List.filter_append ..

@[simp] theorem marks_layout (cs : List Char) : marks (all .layout cs) = [] := by
  rw [marks, List.filter_eq_nil_iff]
  intro c hc
  obtain ⟨d, -, rfl⟩ := List.mem_map.mp hc
  simp [isMark]

theorem marks_all {ink : Ink} (hink : ink ≠ .layout) (cs : List Char) :
    marks (all ink cs) = all ink (cs.filter (!isWhite ·)) := by
  rw [marks, all, List.filter_map, all]
  refine congrArg (List.map _) (List.filter_congr fun c _ => ?_)
  simp [isMark, hink]

/-! ## Trimming -/

/-- The characters without white space at the end. -/
def trimmed (cells : List Cell) : List Cell :=
  cells.rdropWhile (isWhite ·.char)

theorem map_shown_trimmed (case : KeywordCase) (cells : List Cell) :
    (trimmed cells).map (·.shown case) = dropWhileEnd isWhite (cells.map (·.shown case)) := by
  have hwhite : (isWhite ∘ fun c : Cell => c.shown case) = fun c => isWhite c.char :=
    funext fun c => apply_shown ignoresCase_isWhite case c
  rw [trimmed, List.rdropWhile, dropWhileEnd, ← List.map_reverse, List.dropWhile_map, hwhite,
    List.map_reverse]

/-- Trimming takes white space only. -/
theorem marks_trimmed (cells : List Cell) : marks (trimmed cells) = marks cells := by
  conv_rhs => rw [← List.rdropWhile_append_rtakeWhile (p := (isWhite ·.char)) (l := cells)]
  have hwhite : marks (cells.rtakeWhile (isWhite ·.char)) = [] := by
    rw [marks, List.filter_eq_nil_iff]
    intro c hc
    simp [isMark, List.mem_rtakeWhile_imp hc]
  rw [marks_append, hwhite, List.append_nil]
  rfl

end Cell

/-! ## Lines -/

/-- A line of which the case of keywords is open. -/
structure Draft where
  indent : Nat
  cells : List Cell
  width : Nat
  anchors : List Anchor

namespace Draft

/-- The line in a case. -/
def shown (case : KeywordCase) (d : Draft) : Line :=
  ⟨d.indent, String.ofList (d.cells.map (·.shown case)), d.width, d.anchors⟩

/-- The characters of tokens on the line. -/
def marks (d : Draft) : List Cell :=
  Cell.marks d.cells

/-- An empty line. -/
def empty (indent : Nat) : Draft := ⟨indent, [], 0, []⟩

@[simp] theorem shown_empty (case : KeywordCase) (indent : Nat) :
    (empty indent).shown case = .empty indent := rfl

@[simp] theorem marks_empty (indent : Nat) : (empty indent).marks = [] := rfl

theorem toList_shown (case : KeywordCase) (d : Draft) :
    (d.shown case).text.toList = d.cells.map (·.shown case) :=
  String.toList_ofList

@[simp] theorem isEmpty_shown (case : KeywordCase) (d : Draft) :
    (d.shown case).text.isEmpty = d.cells.isEmpty := by
  rw [Bool.eq_iff_iff, String.isEmpty_iff, ← String.toList_eq_nil_iff, toList_shown,
    List.map_eq_nil_iff, List.isEmpty_iff]

theorem utf8ByteSize_shown (case : KeywordCase) (d : Draft) :
    (d.shown case).text.utf8ByteSize = byteLength (d.cells.map (·.char)) := by
  rw [shown, ← Lexer.byteLength_eq, Cell.byteLength_shown]

end Draft

/-! ## Pages -/

/-- A page of which the case of keywords is open. -/
structure Manuscript where
  done : List Draft
  line : Draft
  breakAt : Option Nat
  blankLines : Nat

namespace Manuscript

/-- The page in a case. -/
def shown (case : KeywordCase) (m : Manuscript) : Page :=
  ⟨m.done.map (·.shown case), m.line.shown case, m.breakAt, m.blankLines⟩

/-- All lines, first to last. -/
def drafts (m : Manuscript) : List Draft :=
  (m.line :: m.done).reverse

/-- The characters of tokens on the page. -/
def marks (m : Manuscript) : List Cell :=
  m.drafts.flatMap Draft.marks

theorem lines_shown (case : KeywordCase) (m : Manuscript) :
    (m.shown case).lines = m.drafts.map (·.shown case) := by
  rw [Page.lines, drafts, List.map_reverse, List.map_cons]
  rfl

theorem marks_eq (m : Manuscript) :
    m.marks = m.done.reverse.flatMap Draft.marks ++ m.line.marks := by
  rw [marks, drafts, List.reverse_cons, List.flatMap_append, List.flatMap_singleton]

end Manuscript

end Layout

/-- The case in which keywords are written, where this one is asked for. -/
def Dialect.caseFor (dialect : Dialect) : KeywordCase → KeywordCase
  | .dialect => dialect.defaultCase
  | case => case

namespace Layout

/-- The pages for the cases that may be asked for show one manuscript, on which tokens have written
these characters. -/
def Page.Cased (dialect : Dialect) (pages : KeywordCase → Page) (marks : List Cell) : Prop :=
  ∃ m : Manuscript, (pages = fun asked => m.shown (dialect.caseFor asked)) ∧ m.marks = marks

namespace Page.Cased

variable {dialect : Dialect} {pages : KeywordCase → Page} {marks : List Cell}

theorem start : Cased dialect (fun _ => .start) [] :=
  ⟨⟨[], .empty 0, none, 0⟩, rfl, rfl⟩

theorem newline (h : Cased dialect pages marks) (indent : Nat) :
    Cased dialect (fun asked => (pages asked).newline indent) marks := by
  obtain ⟨m, rfl, rfl⟩ := h
  exact ⟨{ m with breakAt := some indent }, rfl, rfl⟩

theorem place (h : Cased dialect pages marks) (placed : Option Nat) :
    Cased dialect (fun asked => (pages asked).place placed) marks := by
  cases placed with
  | none => exact h
  | some indent => exact h.newline indent

theorem settle (h : Cased dialect pages marks) (settled : Option Nat) (lines : Nat) :
    Cased dialect (fun asked => (pages asked).settle settled lines) marks := by
  cases settled with
  | none => exact h
  | some indent =>
    obtain ⟨m, rfl, rfl⟩ := h
    exact ⟨{ m with breakAt := some indent, blankLines := max m.blankLines lines }, rfl, rfl⟩

/-- An anchor stands behind as many bytes in every case. -/
theorem note (h : Cased dialect pages marks) (anchor : Option (AnchorKind × Nat)) :
    Cased dialect (fun asked => (pages asked).note anchor) marks := by
  cases anchor with
  | none => exact h
  | some place =>
    obtain ⟨m, rfl, rfl⟩ := h
    let noted : Anchor :=
      ⟨place.1, place.2, byteLength (m.line.cells.map (·.char)), m.line.width⟩
    let line : Draft := { m.line with anchors := m.line.anchors ++ [noted] }
    refine ⟨{ m with line := line }, funext fun asked => ?_, ?_⟩
    · have hbytes := m.line.utf8ByteSize_shown (dialect.caseFor asked)
      simp only [Page.note, Page.anchor, Manuscript.shown, hbytes]
      rfl
    · rw [Manuscript.marks_eq, Manuscript.marks_eq]
      rfl

/-- Where the same cells are written on all pages, the pages still show one manuscript. -/
theorem write (h : Cased dialect pages marks) {cells : List Cell} {texts : KeywordCase → String}
    {widths : KeywordCase → Nat} {width : Nat}
    (htexts : ∀ asked, (texts asked).toList = cells.map (·.shown (dialect.caseFor asked)))
    (hwidths : ∀ asked, widths asked = width) :
    Cased dialect (fun asked => (pages asked).write (texts asked) (widths asked))
      (marks ++ Cell.marks cells) := by
  obtain ⟨m, rfl, rfl⟩ := h
  let line : Draft :=
    { m.line with
      cells := m.line.cells ++ cells
      width := if cells.any ('\n' == ·.char) then width else m.line.width + width }
  refine ⟨{ m with line := line }, funext fun asked => ?_, ?_⟩
  · have htext : (m.line.shown (dialect.caseFor asked)).text ++ texts asked =
        (line.shown (dialect.caseFor asked)).text := by
      rw [← String.toList_inj, String.toList_append, Draft.toList_shown, Draft.toList_shown, htexts,
        List.map_append]
    have hfeed : (texts asked).toList.contains '\n' = cells.any ('\n' == ·.char) := by
      rw [htexts, Cell.contains_shown (by decide)]
    simp only [Page.write, Manuscript.shown, htext, hfeed, hwidths]
    rfl
  · simp only [Manuscript.marks_eq, Draft.marks, line, Cell.marks_append, List.append_assoc]

/-- Text that no token writes. -/
theorem write_layout (h : Cased dialect pages marks) (text : String) (width : Nat) :
    Cased dialect (fun asked => (pages asked).write text width) marks := by
  have htexts : ∀ asked, text.toList =
      (Cell.all .layout text.toList).map (·.shown (dialect.caseFor asked)) :=
    fun asked => (Cell.map_shown_all (by decide) _ _).symm
  have hwrite := h.write htexts fun _ => (rfl : width = width)
  rwa [Cell.marks_layout, List.append_nil] at hwrite

theorem advance (h : Cased dialect pages marks) (space : Bool) :
    Cased dialect (fun asked => (pages asked).advance space) marks := by
  have hspace := h.write_layout " " 1
  obtain ⟨m, rfl, rfl⟩ := h
  have hempty : ∀ asked, (m.shown (dialect.caseFor asked)).line.text.isEmpty =
      m.line.cells.isEmpty := fun asked => m.line.isEmpty_shown _
  have hbreak : ∀ asked, (m.shown (dialect.caseFor asked)).breakAt = m.breakAt := fun _ => rfl
  cases hb : m.breakAt with
  | none =>
    simp only [Page.advance, hbreak, hb, hempty]
    split
    · exact hspace
    · exact ⟨m, rfl, rfl⟩
  | some indent =>
    simp only [Page.advance, hbreak, hb, hempty]
    split
    · let line : Draft := { m.line with indent := indent }
      refine ⟨⟨m.done, line, none, 0⟩, rfl, ?_⟩
      rw [Manuscript.marks_eq, Manuscript.marks_eq]
      rfl
    · let done := List.replicate m.blankLines (.empty 0) ++ m.line :: m.done
      refine ⟨⟨done, .empty indent, none, 0⟩, funext fun asked => ?_, ?_⟩
      · simp only [Manuscript.shown, done, List.map_append, List.map_cons, List.map_replicate,
          Draft.shown_empty]
      · -- neither the empty lines nor the new line hold anything
        have hblank : (List.replicate m.blankLines (Draft.empty 0)).flatMap Draft.marks = [] := by
          rw [List.flatMap_eq_nil_iff]
          intro line hline
          rw [List.eq_of_mem_replicate hline]
          rfl
        rw [Manuscript.marks_eq, Manuscript.marks_eq]
        simp only [done, List.reverse_append, List.reverse_cons, List.reverse_replicate,
          List.flatMap_append, List.flatMap_singleton, hblank, List.append_nil, Draft.marks_empty]

/-! ## What layout sees of a page -/

variable (h : Cased dialect pages marks) (asked asked' : KeywordCase)
include h

theorem breakAt_eq : (pages asked).breakAt = (pages asked').breakAt := by
  obtain ⟨m, rfl, -⟩ := h
  rfl

theorem isEmpty_eq : (pages asked).line.text.isEmpty = (pages asked').line.text.isEmpty := by
  obtain ⟨m, rfl, -⟩ := h
  exact (m.line.isEmpty_shown _).trans (m.line.isEmpty_shown _).symm

theorem lineIndent_eq : (pages asked).line.indent = (pages asked').line.indent := by
  obtain ⟨m, rfl, -⟩ := h
  rfl

theorem indent_eq : (pages asked).indent = (pages asked').indent := by
  rw [Page.indent, Page.indent, h.breakAt_eq asked asked', h.lineIndent_eq asked asked']

theorem atLineStart_eq : (pages asked).atLineStart = (pages asked').atLineStart := by
  rw [Page.atLineStart, Page.atLineStart, h.breakAt_eq asked asked', h.isEmpty_eq asked asked']

theorem column_eq (unit : Nat) : (pages asked).column unit = (pages asked').column unit := by
  obtain ⟨m, rfl, -⟩ := h
  rfl

theorem lineHas_eq (kind : AnchorKind) :
    (pages asked).lineHas kind = (pages asked').lineHas kind := by
  obtain ⟨m, rfl, -⟩ := h
  rfl

theorem exists_lines : ∃ drafts : List Draft,
    (∀ asked, (pages asked).lines = drafts.map (·.shown (dialect.caseFor asked))) ∧
      drafts.flatMap Draft.marks = marks := by
  obtain ⟨m, rfl, rfl⟩ := h
  exact ⟨m.drafts, fun asked => m.lines_shown _, rfl⟩

end Page.Cased

end Layout

end SqlFormat

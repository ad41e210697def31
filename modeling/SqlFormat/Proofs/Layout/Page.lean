import Mathlib
import SqlFormat.Proofs.Layout.Turn
import SqlFormat.Proofs.Token.Respell

/-!
# A page as text

The characters of a page are those of its lines with their margins, untrimmed, and a line feed
between two lines. Writing adds to them: blanks first, which depend on the line that is to be
started, and then the text.

Results: `Page.chars_write`, `Page.toList_render`.
-/

namespace SqlFormat.Layout

open Text

variable {unit : String} {page : Page} {line : Line}

/-- The margin of a line. -/
def margin (unit : String) (indent : Nat) : List Char :=
  (String.join (List.replicate indent unit)).toList

/-- The characters of a line. -/
def Line.chars (unit : String) (line : Line) : List Char :=
  if line.text.isEmpty then [] else margin unit line.indent ++ line.text.toList

/-- The characters of a page. -/
def Page.chars (unit : String) (page : Page) : List Char :=
  (page.done.reverse.flatMap fun line => line.chars unit ++ ['\n']) ++ page.line.chars unit

/-- The blanks that come before the next text, if a space is wanted or not. -/
def Page.gap (unit : String) (page : Page) (space : Bool) : List Char :=
  match page.breakAt with
  | some indent =>
    (if page.line.text.isEmpty then [] else List.replicate (page.blankLines + 1) '\n') ++
      margin unit indent
  | none => if space && !page.line.text.isEmpty then [' '] else []

/-- A page on which nothing is written yet has only one line, and that is not indented. -/
def Page.Started (page : Page) : Prop :=
  page.line.text = "" → page.done = [] ∧ page.line.indent = 0

theorem margin_zero (unit : String) : margin unit 0 = [] := rfl

@[simp] theorem Line.empty_text (indent : Nat) : (Line.empty indent).text = "" := rfl

@[simp] theorem Line.empty_indent (indent : Nat) : (Line.empty indent).indent = indent := rfl

theorem Line.chars_of_ne {unit : String} {line : Line} (h : line.text ≠ "") :
    line.chars unit = margin unit line.indent ++ line.text.toList := by
  rw [Line.chars, if_neg (by simpa using h)]

theorem Line.chars_empty {unit : String} {line : Line} (h : line.text = "") :
    line.chars unit = [] := by
  rw [Line.chars, if_pos (by simp [h])]

theorem Page.chars_eq_nil (hs : page.Started) (h : page.line.text = "") (unit : String) :
    page.chars unit = [] := by
  rw [Page.chars, (hs h).1, Line.chars_empty h]
  rfl

/-- Text at the end of the line that is being written. -/
theorem Page.chars_write_line (hs : page.Started) (unit : String) {text : String} (hne : text ≠ "")
    (width : Nat) : (page.write text width).chars unit = page.chars unit ++ text.toList := by
  have hline : page.line.text ++ text ≠ "" := by
    rw [Ne, ← String.toList_inj, String.toList_append]
    simp [hne]
  rw [Page.chars, Page.write, Line.chars_of_ne hline]
  simp only [String.toList_append]
  by_cases h : page.line.text = ""
  · rw [chars_eq_nil hs h, (hs h).1, (hs h).2, h]
    rfl
  · rw [Page.chars, Line.chars_of_ne h]
    simp only [List.append_assoc]

theorem flatMap_empty (unit : String) (n : Nat) :
    ((List.replicate n (Line.empty 0)).flatMap fun line => line.chars unit ++ ['\n']) =
      List.replicate n '\n' := by
  induction n with
  | zero => rfl
  | succ n ih =>
    rw [List.replicate_succ, List.flatMap_cons, ih, List.replicate_succ]
    rfl

/-- Text on the page, after the line that is to be started or the space that is wanted. -/
theorem Page.chars_write (hs : page.Started) (unit : String) {text : String} (hne : text ≠ "")
    (space : Bool) (width : Nat) :
    ((page.advance space).write text width).chars unit =
      page.chars unit ++ (page.gap unit space ++ text.toList) := by
  unfold Page.advance Page.gap
  cases hb : page.breakAt with
  | none =>
    simp only
    split_ifs with h
    · have hline : page.line.text ≠ "" := by
        simp only [Bool.and_eq_true, Bool.not_eq_true', String.isEmpty_eq_false_iff] at h
        exact h.2
      have hs' : (page.write " " 1).Started := by
        intro habs
        simp [Page.write, hline] at habs
      rw [chars_write_line hs' unit hne, chars_write_line hs unit (by decide)]
      simp
    · rw [chars_write_line hs unit hne]
      simp
  | some indent =>
    simp only
    by_cases h : page.line.text = ""
    · rw [if_pos (by simp [h]), chars_eq_nil hs h, if_pos (by simp [h])]
      rw [Page.chars, Page.write, Line.chars_of_ne (by simpa [h] using hne)]
      simp [(hs h).1, h]
    · rw [if_neg (by simpa using h), if_neg (by simpa using h), Page.chars, Page.write,
        Line.chars_of_ne (by simpa [Line.empty] using hne), Page.chars]
      simp only [List.reverse_append, List.reverse_cons, List.reverse_replicate, List.flatMap_append,
        List.flatMap_cons, flatMap_empty, Line.empty_text, Line.empty_indent, String.empty_append,
        List.append_assoc, List.replicate_succ, List.cons_append, List.nil_append]

/-! ## Trimmed lines -/

/-- All finished lines are trimmed, the empty ones apart. -/
def Page.Neat (page : Page) : Prop :=
  ∀ line ∈ page.done, line.text = "" ∨ Trimmed line.text.toList

theorem toList_renderLine (unit : String) (line : Line) :
    (renderLine unit line).toList =
      (if line.text.isEmpty then [] else margin unit line.indent ++ dropWhileEnd isWhite line.text.toList) ++
        ['\n'] := by
  unfold renderLine margin trimEnd
  split <;> simp

theorem toList_renderLine_trimmed {line : Line} (h : line.text = "" ∨ Trimmed line.text.toList)
    (unit : String) : (renderLine unit line).toList = line.chars unit ++ ['\n'] := by
  rw [toList_renderLine, Line.chars]
  split
  · rfl
  · next hne =>
    have : Trimmed line.text.toList := h.resolve_left (by simpa using hne)
    rw [this]

/-- A neat page is rendered as its characters, without the white space at their end. -/
theorem Page.toList_render (h : page.Neat) (unit : String) :
    (render unit page.lines).toList = dropWhileEnd isWhite (page.chars unit) := by
  have hdone : (page.done.reverse.map (renderLine unit)).flatMap String.toList =
      page.done.reverse.flatMap fun line => line.chars unit ++ ['\n'] := by
    rw [List.flatMap_map]
    refine List.flatMap_congr fun line hline => ?_
    exact toList_renderLine_trimmed (h line (by simpa using hline)) unit
  rw [render, trimEnd, String.toList_ofList, Page.lines, List.reverse_cons, List.map_append,
    String.toList_join, List.flatMap_append, hdone, Page.chars]
  simp only [List.map_cons, List.map_nil, List.flatMap_cons, List.flatMap_nil, List.append_nil,
    toList_renderLine]
  have hfeed : AllWhite ['\n'] := by simp [AllWhite, isWhite]
  rw [← List.append_assoc, dropWhileEnd_append_white _ hfeed, Line.chars]
  split
  · rfl
  · obtain ⟨w, htext, hw⟩ := dropWhileEnd_spec isWhite page.line.text.toList
    conv_rhs => rw [htext, ← List.append_assoc, ← List.append_assoc,
      dropWhileEnd_append_white _ hw, List.append_assoc]

/-! ## The page after a text -/

/-- What holds of a page on which a text has just been written. -/
structure Page.Ends (page : Page) (x : List Char) : Prop where
  suffix : x <:+ page.line.text.toList
  line : page.line.text ≠ ""
  neat : page.Neat

theorem Page.Ends.started {x : List Char} (h : page.Ends x) : page.Started :=
  fun habs => absurd habs h.line

theorem Page.ends_write (hn : page.Neat) {text : String} (hne : text ≠ "") (width : Nat) :
    (page.write text width).Ends text.toList where
  suffix := by
    rw [Page.write, String.toList_append]
    exact List.suffix_append _ _
  line := by
    rw [Page.write, Ne, ← String.toList_inj, String.toList_append]
    simp [hne]
  neat := hn

theorem Page.neat_advance (hn : page.Neat)
    (hline : page.line.text = "" ∨ Trimmed page.line.text.toList) (space : Bool) :
    (page.advance space).Neat := by
  unfold Page.advance
  cases page.breakAt with
  | none => simp only; split <;> exact hn
  | some indent =>
    simp only
    split
    · exact hn
    · intro line hmem
      rcases List.mem_append.mp hmem with h | h
      · rw [List.eq_of_mem_replicate h]
        exact .inl rfl
      · rcases List.mem_cons.mp h with rfl | h
        · exact hline
        · exact hn line h

@[simp] theorem Page.breakAt_write (page : Page) (text : String) (width : Nat) :
    (page.write text width).breakAt = page.breakAt := rfl

namespace State

variable {ctx : Context} {s : State} {item : Item}

/-- The page after a token, the anchors of its last line apart. -/
theorem emit_page (ctx : Context) (s : State) (item : Item) :
    ∃ anchors, (s.emit ctx item).page =
      let page := (s.page.advance (s.spaceBefore ctx item)).write
        (ctx.decorate item.token.kind (displayText ctx item.token))
        (lastLineWidth (displayText ctx item.token))
      { page with line := { page.line with anchors := anchors } } := by
  unfold emit dropAnchor
  cases h : s.pendingAnchor with
  | none => exact ⟨_, rfl⟩
  | some anchor => exact ⟨_, rfl⟩

end State

end SqlFormat.Layout

import Mathlib
import SqlFormat.Proofs.Layout.Page
import SqlFormat.Proofs.Layout.Parts
import SqlFormat.Proofs.Layout.Statements
import SqlFormat.Proofs.Text.Visible

/-!
# Statements side by side

The text of two token sequences, of which the first ends with a semicolon outside all procedural
blocks, is the text of the first, empty lines, and the text of the second. Nothing that the first
leaves open has any effect on the second.

Results: `render_append`, `layout?_append`.
-/

namespace SqlFormat.Layout

open Text

/-! ## Lines as text -/

section

variable {unit : String} {lines first second : List Line} {line : Line}

/-- The characters of lines, each with its line feed. -/
def feedLines (unit : String) (lines : List Line) : List Char :=
  lines.flatMap fun line => (renderLine unit line).toList

theorem toList_render (unit : String) (lines : List Line) :
    (render unit lines).toList = dropWhileEnd isWhite (feedLines unit lines) := by
  rw [render, trimEnd, String.toList_ofList, String.toList_join, List.flatMap_map]
  rfl

theorem feedLines_append (unit : String) (first second : List Line) :
    feedLines unit (first ++ second) = feedLines unit first ++ feedLines unit second :=
  List.flatMap_append

theorem feedLines_empty (unit : String) (n : Nat) :
    feedLines unit (List.replicate n (.empty 0)) = List.replicate n '\n' := by
  induction n with
  | zero => rfl
  | succ n ih =>
    have hline : (renderLine unit (.empty 0)).toList = ['\n'] := toList_renderLine unit (.empty 0)
    rw [List.replicate_succ, feedLines, List.flatMap_cons, ← feedLines, ih, hline,
      List.replicate_succ]
    rfl

theorem renderLine_visible (unit : String) (h : Visible line.text.toList) :
    (renderLine unit line).toList =
      margin unit line.indent ++ dropWhileEnd isWhite line.text.toList ++ ['\n'] := by
  have hne : line.text.isEmpty = false := by
    simpa using h.ne_nil
  rw [toList_renderLine, hne]
  rfl

/-- Where the last line is visible, only its line feed is trimmed. -/
theorem feedLines_eq (unit : String) (hlast : ∃ line ∈ lines.getLast?, Visible line.text.toList) :
    feedLines unit lines = dropWhileEnd isWhite (feedLines unit lines) ++ ['\n'] := by
  obtain ⟨line, hline, hvisible⟩ := hlast
  obtain ⟨front, rfl⟩ := List.getLast?_eq_some_iff.mp hline
  have hfeed : AllWhite ['\n'] := by simp [AllWhite, isWhite]
  rw [feedLines_append]
  have hone : feedLines unit [line] = _ :=
    (List.append_nil _).trans (renderLine_visible unit hvisible)
  rw [hone, ← List.append_assoc, dropWhileEnd_append_white _ hfeed, ← List.append_assoc,
    dropWhileEnd_append (dropWhileEnd_idem _) hvisible.dropWhileEnd_ne_nil]

theorem visible_feedLines (unit : String) (h : ∃ line ∈ lines, Visible line.text.toList) :
    Visible (feedLines unit lines) := by
  obtain ⟨line, hline, hvisible⟩ := h
  have hrest : Visible (dropWhileEnd isWhite line.text.toList) := by
    obtain ⟨w, htext, hw⟩ := dropWhileEnd_spec isWhite line.text.toList
    obtain ⟨c, hc, hwhite⟩ := hvisible
    rw [htext] at hc
    refine ⟨c, (List.mem_append.mp hc).resolve_right fun hc => ?_, hwhite⟩
    rw [hw c hc] at hwhite
    cases hwhite
  refine hrest.of_subset fun c hc => List.mem_flatMap.mpr ⟨line, hline, ?_⟩
  rw [renderLine_visible unit hvisible]
  simp [hc]

/-- **The text of lines with empty lines between them**, if something is to be seen on the last line
before these and on some line after them. -/
theorem render_append (unit : String) (n : Nat)
    (hfirst : ∃ line ∈ first.getLast?, Visible line.text.toList)
    (hsecond : ∃ line ∈ second, Visible line.text.toList) :
    render unit (first ++ List.replicate n (.empty 0) ++ second) =
      render unit first ++ String.ofList (List.replicate (n + 1) '\n') ++ render unit second := by
  rw [← String.toList_inj]
  have hne := (visible_feedLines unit hsecond).dropWhileEnd_ne_nil
  calc (render unit (first ++ List.replicate n (.empty 0) ++ second)).toList
    _ = feedLines unit first ++ List.replicate n '\n' ++
          dropWhileEnd isWhite (feedLines unit second) := by
        rw [toList_render, feedLines_append, feedLines_append, feedLines_empty,
          dropWhileEnd_append_of_ne hne]
    _ = dropWhileEnd isWhite (feedLines unit first) ++ List.replicate (n + 1) '\n' ++
          dropWhileEnd isWhite (feedLines unit second) := by
        conv_lhs => rw [feedLines_eq unit hfirst]
        rw [List.replicate_succ, List.append_assoc _ ['\n'], List.singleton_append]
    _ = _ := by
        simp only [String.toList_append, String.toList_ofList, toList_render]

end

/-! ## What is to be seen on a page -/

/-- Something is to be seen on the page. -/
def Page.Visible (page : Page) : Prop :=
  ∃ line ∈ page.line :: page.done, Text.Visible line.text.toList

namespace Page.Visible

variable {page : Page}

theorem mk_line (h : page.Visible) {line : Line} (hline : page.line.Keeps line) :
    { page with line := line }.Visible := by
  obtain ⟨other, hother, hvisible⟩ := h
  rcases List.mem_cons.mp hother with rfl | hdone
  · exact ⟨line, List.mem_cons_self, hvisible.of_sublist hline⟩
  · exact ⟨other, List.mem_cons_of_mem _ hdone, hvisible⟩

theorem write (h : page.Visible) (text : String) (width : Nat) : (page.write text width).Visible := by
  refine h.mk_line ?_
  rw [Line.Keeps, String.toList_append]
  exact List.sublist_append_left _ _

theorem advance (h : page.Visible) (space : Bool) : (page.advance space).Visible := by
  unfold Page.advance
  cases page.breakAt with
  | none =>
    simp only
    split
    · exact h.write _ _
    · exact h
  | some indent =>
    simp only
    split
    · exact h.mk_line (.refl _)
    · obtain ⟨line, hline, hvisible⟩ := h
      exact ⟨line, List.mem_cons_of_mem _ (List.mem_append_right _ hline), hvisible⟩

theorem note (h : page.Visible) (anchor : Option (AnchorKind × Nat)) : (page.note anchor).Visible := by
  cases anchor with
  | none => exact h
  | some place => exact h.mk_line (.refl _)

theorem of_text {text : String} (h : Text.Visible text.toList) (width : Nat) :
    (page.write text width).Visible := by
  refine ⟨(page.write text width).line, List.mem_cons_self, h.of_sublist ?_⟩
  rw [Page.write, String.toList_append]
  exact List.sublist_append_right _ _

end Page.Visible

namespace State

variable {ctx : Context} {s : State} {item : Item}

theorem visible_settle {page : Page} (h : page.Visible) (settled : Option Nat) (blank : Nat) :
    (page.settle settled blank).Visible := by
  cases settled <;> exact h

theorem visible_step (ctx : Context) (h : s.page.Visible) (item : Item) :
    (s.step ctx item).page.Visible := by
  unfold step
  split
  · have hpage : (s.commentPage item).Visible := by
      have hbroken : (s.broken item).page.Visible := by
        unfold broken
        split <;> exact h
      unfold commentPage
      split
      · exact h.write _ _
      · exact hbroken.advance _
    have hwritten : (s.commentWritten ctx item).Visible := hpage.write _ _
    rw [comment_eq]
    simp only
    split <;> exact hwritten
  · rw [significant_eq]
    refine visible_settle ?_ _ _
    refine ((Page.Visible.advance ?_ _).note _).write _ _
    generalize ((s.sight ctx item.token).decision ctx item).placed = placed
    cases placed <;> exact h

theorem visible_run (ctx : Context) (h : s.page.Visible) (items : List Item) :
    (s.run ctx items).page.Visible := by
  induction items generalizing s with
  | nil => exact h
  | cons item items ih => exact ih (visible_step ctx h item)

/-- A visible token is to be seen where it is written. -/
theorem visible_significant (hplain : ctx.decorate = fun _ text => text)
    (hcomment : item.token.kind.isComment = false) (hvisible : Visible item.token.text.toList) :
    (s.step ctx item).page.Visible := by
  have hdisplay : Visible (displayText ctx item.token).toList := by
    unfold displayText
    split
    · exact hvisible.normalizePhrase.apply _
    · exact hvisible
  rw [step, if_neg (by simp [hcomment]), significant_eq]
  refine visible_settle ?_ _ _
  refine Page.Visible.of_text ?_ _
  rw [hplain]
  exact hdisplay

end State

/-! ## Two sequences -/

/-- The last token, white space apart, is a semicolon that is read outside all procedural blocks. -/
def EndsStatement (ctx : Context) (tokens : List Token) : Prop :=
  ∃ before last, Item.ofTokens tokens = before ++ [last] ∧ last.token.isOperator ";" = true ∧
    (State.start.run ctx before).nesting.proceduralDepth = 0

/-- The first token, white space apart, is no comment and not white. -/
def StartsStatement (tokens : List Token) : Prop :=
  ∃ t ∈ (tokens.filter (·.kind != .whitespace)).head?,
    t.kind.isComment = false ∧ Visible t.text.toList

/-- The first item of a token sequence. -/
theorem Item.ofTokens_eq_cons {tokens : List Token} {t : Token}
    (h : t ∈ (tokens.filter (·.kind != .whitespace)).head?) :
    ∃ item rest, Item.ofTokens tokens = item :: rest ∧ item.token = t := by
  rw [← Item.map_token_ofTokens tokens] at h
  cases hitems : Item.ofTokens tokens with
  | nil =>
    rw [hitems] at h
    cases h
  | cons item rest =>
    rw [hitems] at h
    exact ⟨item, rest, rfl, by simpa using h⟩

/-- What is seen of the first token is on some line. -/
theorem visible_linesOf {ctx : Context} (hplain : ctx.decorate = fun _ text => text)
    {tokens : List Token} {item : Item} {rest : List Item}
    (hitems : Item.ofTokens tokens = item :: rest) (hcomment : item.token.kind.isComment = false)
    (hvisible : Visible item.token.text.toList) :
    ∃ line ∈ linesOf ctx tokens, Visible line.text.toList := by
  have hrun : (State.start.run ctx (item :: rest)).page.Visible :=
    State.visible_run ctx (State.visible_significant hplain hcomment hvisible) rest
  obtain ⟨line, hline, hseen⟩ := hrun
  refine ⟨line, ?_, hseen⟩
  rw [linesOf, hitems, Page.lines, List.mem_reverse]
  exact hline

end SqlFormat.Layout

namespace SqlFormat

open Layout Text

/-- **Statements are laid out independently**: the text of two token sequences is the texts of both with
the empty lines of the style between them, whatever the first leaves open. Only its brackets have to be
closed, as groups are looked for in the whole sequence. -/
theorem layout?_append {ctx : Layout.Context} (hplain : ctx.decorate = fun _ text => text)
    (hgap : 1 ≤ ctx.style.linesBetweenQueries ∨ (ctx.style.alignColumns = false ∧
      ctx.style.alignAssignments = false ∧ ctx.style.alignValues = false))
    {first second : List Token} (hends : EndsStatement ctx first)
    (hclosed : ∀ (i : Nat) (h : i < first.length), Groups.isOpening first[i] = true →
      ((Groups.ofTokens first).matchingClose? i).isSome = true)
    (hstarts : StartsStatement second) :
    layout? ctx (first ++ second) =
      (layout? ctx first).bind fun above => (layout? ctx second).map fun below =>
        above ++ String.ofList (List.replicate (ctx.style.linesBetweenQueries + 1) '\n') ++ below := by
  obtain ⟨before, last, hfirst, hlast, hdepth⟩ := hends
  obtain ⟨t, ht, hcomment, hvisible⟩ := hstarts
  obtain ⟨item, rest, hsecond, rfl⟩ := Item.ofTokens_eq_cons ht
  have hopened : ∀ i t, first[i]? = some t → Groups.isOpening t = true →
      ((Groups.ofTokens first).matchingClose? i).isSome := by
    intro i t ht
    obtain ⟨hi, rfl⟩ := List.getElem?_eq_some_iff.mp ht
    exact hclosed i hi
  obtain ⟨hlines, line, hline, hsemicolon⟩ :=
    linesOf_append hplain hfirst hlast hdepth hopened hsecond hcomment
  have hseen := visible_linesOf hplain hsecond hcomment hvisible
  unfold layout?
  rw [hlines, Alignment.alignAll?_append hgap]
  cases hxs : Alignment.alignAll? ctx.style (linesOf ctx first) with
  | none => rfl
  | some xs =>
    cases hys : Alignment.alignAll? ctx.style (linesOf ctx second) with
    | none => rfl
    | some ys =>
      have hlast : ∃ line ∈ xs.getLast?, Visible line.text.toList := by
        obtain ⟨aligned, hmem, hkeeps⟩ := (Alignment.keeps_alignAll hxs).exists_getLast hline
        exact ⟨aligned, hmem, Visible.of_sublist ⟨';', hsemicolon, by decide⟩ hkeeps⟩
      have hsome : ∃ line ∈ ys, Visible line.text.toList := by
        obtain ⟨line, hmem, hvisible⟩ := hseen
        obtain ⟨aligned, hmem, hkeeps⟩ := (Alignment.keeps_alignAll hys).exists_mem hmem
        exact ⟨aligned, hmem, hvisible.of_sublist hkeeps⟩
      simp only [Option.bind_some, Option.map_some, render_append ctx.style.indent _ hlast hsome]

/-- A statement with a `CASE`, a `BETWEEN` and a clause that are left open. -/
def unfinished : List Token :=
  [.plain .reservedTopLevel "SELECT" 0, .plain .whitespace " " 6, .plain .openParen "CASE" 7,
   .plain .whitespace " " 11, .plain .word "a" 12, .plain .whitespace " " 13,
   .plain .reserved "BETWEEN" 14, .plain .operator ";" 21]

/-- A statement that takes one line more than its clause. -/
def shortQuery : List Token :=
  [.plain .reservedTopLevel "SELECT" 0, .plain .whitespace " " 6, .plain .word "b" 7]

/-- Layout in the standard style, without colour. -/
def plainContext : Layout.Context := ⟨.standard, .standard, fun _ text => text⟩

/-- An open `CASE`, a `BETWEEN` and a clause end with their statement. -/
theorem layout?_append_unfinished :
    EndsStatement plainContext unfinished ∧ StartsStatement shortQuery ∧
      layout? plainContext (unfinished ++ shortQuery) =
        some "SELECT\n  CASE a BETWEEN;\n\nSELECT\n  b" := by
  have hends : EndsStatement plainContext unfinished :=
    ⟨(Item.ofTokens unfinished).dropLast, _, (List.dropLast_append_getLast (by decide)).symm,
      by decide, by decide⟩
  have hstarts : StartsStatement shortQuery :=
    ⟨.plain .reservedTopLevel "SELECT" 0, rfl, rfl, 'S', by decide, by decide⟩
  refine ⟨hends, hstarts, ?_⟩
  have hgap : 1 ≤ plainContext.style.linesBetweenQueries := le_rfl
  have hclosed : ∀ (i : Nat) (h : i < unfinished.length), Groups.isOpening unfinished[i] = true →
      ((Groups.ofTokens unfinished).matchingClose? i).isSome = true := by
    decide
  have happend := layout?_append rfl (.inl hgap) hends hclosed hstarts
  have habove : layout? plainContext unfinished = some "SELECT\n  CASE a BETWEEN;" := by
    decide
  have hbelow : layout? plainContext shortQuery = some "SELECT\n  b" := by decide
  rw [happend, habove, hbelow]
  decide

end SqlFormat

import Mathlib
import SqlFormat.Proofs.Checked.Format
import SqlFormat.Proofs.Layout.Recase
import SqlFormat.Proofs.Layout.RecaseAlignment

/-!
# Formatting in every case

The case that is asked for keywords is seen in the letters of keywords and nowhere else. The
formatted texts for all cases show one sequence of characters, each of which knows whether a keyword
wrote it; in it the characters of the tokens stand in the order of the source. So two of these texts
have the same length, and are equal once the case of letters is forgotten.

Results: `format?_keywordCase`.
-/

namespace SqlFormat

open Text Layout

namespace Layout

/-! ## Rendering -/

/-- A draft with its indentation and its line feed. -/
def Draft.rendered (unit : String) (d : Draft) : List Cell :=
  if d.cells.isEmpty then Cell.all .layout ['\n']
  else Cell.all .layout (String.join (List.replicate d.indent unit)).toList ++
    (Cell.trimmed d.cells ++ Cell.all .layout ['\n'])

theorem toList_renderLine_shown (unit : String) (case : KeywordCase) (d : Draft) :
    (renderLine unit (d.shown case)).toList = (d.rendered unit).map (·.shown case) := by
  unfold renderLine Draft.rendered
  rw [Draft.isEmpty_shown]
  split
  · rw [Cell.map_shown_all (by decide)]
    rfl
  · rw [String.toList_append, String.toList_append, trimEnd, String.toList_ofList,
      Draft.toList_shown, ← Cell.map_shown_trimmed, List.map_append, List.map_append,
      Cell.map_shown_all (by decide), Cell.map_shown_all (by decide), List.append_assoc]
    rfl

/-- Indentation, line feeds and trimming leave the characters of tokens as they are. -/
theorem Draft.marks_rendered (unit : String) (d : Draft) :
    Cell.marks (d.rendered unit) = d.marks := by
  unfold Draft.rendered
  split
  · next hempty =>
    rw [Cell.marks_layout, Draft.marks, List.isEmpty_iff.mp hempty]
    rfl
  · rw [Cell.marks_append, Cell.marks_append, Cell.marks_layout, Cell.marks_layout,
      Cell.marks_trimmed, List.nil_append, List.append_nil]
    rfl

/-- The text of drafts, in which the case of keywords is open. -/
def rendered (unit : String) (drafts : List Draft) : List Cell :=
  Cell.trimmed (drafts.flatMap (·.rendered unit))

theorem render_shown (unit : String) (case : KeywordCase) (drafts : List Draft) :
    render unit (drafts.map (·.shown case)) =
      String.ofList ((rendered unit drafts).map (·.shown case)) := by
  rw [render, trimEnd, rendered, Cell.map_shown_trimmed]
  refine congrArg (fun cs => String.ofList (dropWhileEnd isWhite cs)) ?_
  rw [List.map_map, String.toList_join, List.map_flatMap, List.flatMap_map]
  exact List.flatMap_congr fun d _ => toList_renderLine_shown unit case d

theorem marks_rendered (unit : String) (drafts : List Draft) :
    Cell.marks (rendered unit drafts) = drafts.flatMap Draft.marks := by
  rw [rendered, Cell.marks_trimmed, Cell.marks, List.filter_flatMap]
  exact List.flatMap_congr fun d _ => d.marks_rendered unit

end Layout

/-! ## Formatting -/

/-- Colour is put around a text. -/
theorem Style.frames_decoration (style : Style) (dialect : Dialect) :
    Context.Frames ⟨style, dialect, style.decoration⟩ := by
  intro kind
  simp only [Style.decoration]
  cases style.color with
  | never => exact ⟨"", "", fun text => by simp⟩
  | auto => exact ⟨"", "", fun text => by simp⟩
  | always =>
    simp only [Ansi.decorate]
    cases Ansi.attributes? kind with
    | none => exact ⟨"", "", fun text => by simp⟩
    | some attributes => exact ⟨Ansi.reset ++ attributes, Ansi.reset, fun text => rfl⟩

/-- **Keyword case never moves anything.** The formatted texts for all cases of keywords have the
same length and are equal in lower case. They show one sequence of characters, in which only those
that keywords write follow the case, and in which the characters of all tokens but comments stand in
order, white space apart. -/
theorem format?_keywordCase (dialect : Dialect) (style : Style) (text : String) :
    let formatted asked := format? dialect { style with keywordCase := asked } text
    (∀ asked asked', (formatted asked).map String.length = (formatted asked').map String.length ∧
      (formatted asked).map lowerAscii = (formatted asked').map lowerAscii) ∧
    ∃ outcome : Option (List Cell),
      (∀ asked, formatted asked = outcome.map fun cells =>
        String.ofList (cells.map (·.shown (dialect.caseFor asked)))) ∧
      ∀ cells ∈ outcome, Cell.marks cells =
        ((tokenize dialect.lexicon text).map style.params.substitute).flatMap Token.marks := by
  intro formatted
  let ctx : Context := ⟨style, dialect, style.decoration⟩
  have hphrases : ∀ token ∈ (tokenize dialect.lexicon text).map style.params.substitute,
      token.IsPhrase := by
    intro token htoken
    obtain ⟨t, ht, rfl⟩ := List.mem_map.mp htoken
    exact isPhrase_substitute style.params
      (Lexer.sound_of_mem dialect .start 0 text.toList t ht)
  have hframes : ctx.Frames := style.frames_decoration dialect
  obtain ⟨drafts, hlines, hmarks⟩ := exists_linesOf_recased hframes hphrases
  obtain ⟨aligned, haligned, hkept⟩ := Alignment.uniform_alignAll? style drafts
  have hshown : ∀ asked, formatted asked = (aligned.map (rendered style.indent)).map fun cells =>
      String.ofList (cells.map (·.shown (dialect.caseFor asked))) := by
    intro asked
    have hlayout : formatted asked = (Alignment.alignAll? style (linesOf (ctx.recased asked)
        ((tokenize dialect.lexicon text).map style.params.substitute))).map (render style.indent) :=
      format?_eq_layout? dialect { style with keywordCase := asked } text
    rw [hlayout, hlines]
    refine (congrArg (Option.map (render style.indent)) (haligned (dialect.caseFor asked))).trans ?_
    rw [Option.map_map, Option.map_map]
    exact congrArg (Option.map · aligned) (funext fun next => render_shown _ _ next)
  refine ⟨fun asked asked' => ⟨?_, ?_⟩, aligned.map (rendered style.indent), hshown,
    fun cells hcells => ?_⟩
  · simp only [hshown, Option.map_map]
    refine congrArg (Option.map · aligned) (funext fun next => ?_)
    simp only [Function.comp_apply, String.length_ofList, List.length_map]
  · simp only [hshown, Option.map_map]
    refine congrArg (Option.map · aligned) (funext fun next => ?_)
    simp only [Function.comp_apply, lowerAscii_ofList, Cell.map_apply_shown ignoresCase_toLower]
  · obtain ⟨next, hnext, rfl⟩ := Option.map_eq_some_iff.mp hcells
    rw [marks_rendered, ← hmarks]
    exact hkept next hnext

end SqlFormat

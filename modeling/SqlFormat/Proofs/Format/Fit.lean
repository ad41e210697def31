import Mathlib
import SqlFormat.Proofs.Format.Tokens
import SqlFormat.Proofs.Layout.Collapsed

/-!
# Formatted groups on one line fit

The line of a bracket group that is kept on one line is no longer than lines may be, up to the
closing bracket. This is said of the output itself: it begins with what is on the page when the
closing bracket is written.

Results: `collapsed_group_fits`.
-/

namespace SqlFormat

open Text Layout

theorem Style.decoration_eq {style : Style} (h : style.color ≠ .always) :
    style.decoration = fun _ text => text := by
  unfold Style.decoration
  cases hcolor : style.color with
  | always => exact absurd hcolor h
  | never => rfl
  | auto => rfl

theorem Style.eq_unaligned {style : Style} (h : style.alignColumns = false ∧
    style.alignAssignments = false ∧ style.alignValues = false) : style = style.unaligned := by
  obtain ⟨hcolumns, hassignments, hvalues⟩ := h
  cases style
  simp only [Style.unaligned] at hcolumns hassignments hvalues ⊢
  rw [hcolumns, hassignments, hvalues]

/-- **Groups on one line fit.** Where layout keeps a bracket group on one line that is in no other
such group, and the group is open until its closing bracket, the output begins with a text that ends
with this bracket, and the last line of that text has no more characters than a line may have. -/
theorem collapsed_group_fits (dialect : Dialect) (style : Style) (text : String)
    (hlimit : 0 < style.maxLineLength)
    (halign : style.alignColumns = false ∧ style.alignAssignments = false ∧
      style.alignValues = false)
    (hcolor : style.color ≠ .always) {i j : Nat}
    (hkeeps : KeepsInline (style.context dialect) (itemsOfText dialect style text) i)
    (hclose : (Groups.ofTokens
      ((itemsOfText dialect style text).map (·.token))).matchingClose? i = some j)
    (hopen : StaysOpen (style.context dialect) (itemsOfText dialect style text) i j) :
    let items := itemsOfText dialect style text
    let before := (stateAt (style.context dialect) items (j + 1)).page.upTo style.indent
    ∃ out closer, format? dialect style text = some out ∧ items[j]? = some closer ∧
      closer.token.isBracket = true ∧ before <+: out.toList ∧
      closer.token.text.toList <:+ before ∧ lastWidth before ≤ style.maxLineLength := by
  intro items before
  set ctx := style.context dialect
  have hplain : ctx.decorate = fun _ text => text := style.decoration_eq hcolor
  obtain ⟨opener, closer, hi, hj, hbracket, htexts, -⟩ := brackets_of_matchingClose? hclose
  have hends : closer.token.text.toList <:+ before :=
    suffix_upTo_of_isBracket hplain hj hbracket style.indent
  have htrimmed : Trimmed before := by
    obtain ⟨front, hfront⟩ := hends
    rw [← hfront]
    rcases htexts with h | h <;> rw [h]
    · exact trimmed_of_getLast? (c := ')') (by simp) (by decide)
    · exact trimmed_of_getLast? (c := ']') (by simp) (by decide)
  obtain ⟨out, hout, hprefix⟩ := exists_layout_prefix ctx (Style.eq_unaligned halign) (List.prefix_refl _)
    htrimmed
  have hmeasured : (stateAt ctx items (j + 1)).page.Measured :=
    measured_run (s := .start) hplain rfl _
  refine ⟨out, closer, (format?_eq_layout? dialect style text).trans hout, hj, hbracket, hprefix, hends, ?_⟩
  calc lastWidth before ≤ (stateAt ctx items (j + 1)).page.reach style.indentWidth :=
        Page.lastWidth_upTo_le hmeasured style
    _ ≤ style.maxLineLength := hkeeps.reach_le hplain rfl hlimit hclose hopen

/-- The group of a call, where the group in it stays on the line as well. -/
theorem collapsed_group_fits_call :
    let style : Style := { Style.standard with maxLineLength := 30 }
    let items := itemsOfText .standard style "SELECT f(a, (b), 1)"
    let before := (stateAt (style.context .standard) items (10 + 1)).page.upTo style.indent
    ∃ out closer, format? .standard style "SELECT f(a, (b), 1)" = some out ∧
      items[10]? = some closer ∧ closer.token.isBracket = true ∧ before <+: out.toList ∧
      closer.token.text.toList <:+ before ∧ lastWidth before ≤ style.maxLineLength :=
  collapsed_group_fits .standard { Style.standard with maxLineLength := 30 } "SELECT f(a, (b), 1)"
    (by decide) (by decide) (by decide) (i := 2) (by decide +kernel) (by decide +kernel)
    (by decide +kernel)

/-- A group that does not stay open. It would end before column 23, but its `END` closes the second
`CASE` and the group with it, so that the comma ends the line. -/
theorem collapsed_group_overflows :
    let style : Style := { Style.standard with maxLineLength := 23, indent := Style.spaces 40 }
    let items := itemsOfText .standard style "CASE CASE (a END, b)"
    let before := (stateAt (style.context .standard) items (7 + 1)).page.upTo style.indent
    KeepsInline (style.context .standard) items 2 ∧
      (Groups.ofTokens (items.map (·.token))).matchingClose? 2 = some 7 ∧
      format? .standard style "CASE CASE (a END, b)" = some (String.ofList before) ∧
      [')'] <:+ before ∧ style.maxLineLength < lastWidth before := by
  decide +kernel

end SqlFormat

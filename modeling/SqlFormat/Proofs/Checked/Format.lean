import SqlFormat.Format
import SqlFormat.Proofs.Checked.Alignment
import SqlFormat.Proofs.Checked.Lexer

/-!
# Formatting and its one fault

Cutting a text into tokens has no fault, and laying the tokens out only that of alignment. So the
formatter gives the layout of the tokens, or an insertion inside a character stops it.

Results: `format_eq`, `format?_eq_layout?`.
-/

namespace SqlFormat

/-- **Formatting**: all that can go wrong is that alignment would split a character. -/
theorem Checked.format_eq (dialect : Dialect) (style : Style) (text : String) :
    Checked.format dialect style text =
      expect .insertion (layout? ⟨style, dialect, style.decoration⟩
        ((SqlFormat.tokenize dialect.lexicon text).map style.params.substitute)) := by
  rw [Checked.format, Lexer.tokenize_eq, ok_bind, List.map_toArray]
  exact layout_eq _ _

/-- The formatted text is the layout of the tokens. -/
theorem format?_eq_layout? (dialect : Dialect) (style : Style) (text : String) :
    format? dialect style text =
      layout? ⟨style, dialect, style.decoration⟩
        ((tokenize dialect.lexicon text).map style.params.substitute) := by
  rw [format?, Checked.format_eq]
  cases layout? ⟨style, dialect, style.decoration⟩
    ((tokenize dialect.lexicon text).map style.params.substitute) <;> rfl

end SqlFormat

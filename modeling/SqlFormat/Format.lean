import SqlFormat.Checked.Layout
import SqlFormat.Checked.Lexer
import SqlFormat.Text.Utf8

/-!
# Formatting

SQL text is cut into tokens, placeholders get their values, and the tokens are laid out. Every index,
every part of a text, every insertion and every difference on the way is looked at first.
-/

namespace SqlFormat

/-- What is written for the text of a token: only a style that always wants colour gets it. -/
def Style.decoration (style : Style) : TokenKind → String → String :=
  match style.color with
  | .always => Ansi.decorate
  | .never | .auto => fun _ text => text

namespace Checked

/-- The formatted text, without a line feed at its end, or the first fault. -/
def format (dialect : Dialect) (style : Style) (text : String) : Checked String := do
  let tokens ← tokenize dialect.lexicon text
  layout ⟨style, dialect, style.decoration⟩ (tokens.map style.params.substitute)

/-- Formatted bytes. What is not UTF-8 is replaced first. -/
def formatBytes (dialect : Dialect) (style : Style) (bytes : List UInt8) : Checked String :=
  format dialect style (Text.decodeLossy bytes)

end Checked

/-- The formatted text. There is none if there is a fault. -/
def format? (dialect : Dialect) (style : Style) (text : String) : Option String :=
  (Checked.format dialect style text).toOption

/-- Formatted bytes. There are none if there is a fault. -/
def formatBytes? (dialect : Dialect) (style : Style) (bytes : List UInt8) : Option String :=
  (Checked.formatBytes dialect style bytes).toOption

end SqlFormat

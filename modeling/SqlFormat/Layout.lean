import SqlFormat.Layout.Alignment
import SqlFormat.Layout.Step

/-!
# Layout

Tokens become lines, lines are aligned, and aligned lines become text.
-/

namespace SqlFormat.Layout

open Text

/-- The lines of a token sequence, before alignment. -/
def linesOf (ctx : Context) (tokens : List Token) : List Line :=
  (State.start.run ctx (Item.ofTokens tokens)).page.lines

/-- A line as text, with its line feed. Empty lines are not indented. -/
def renderLine (unit : String) (line : Line) : String :=
  if line.text.isEmpty then "\n"
  else String.join (List.replicate line.indent unit) ++ trimEnd line.text ++ "\n"

/-- Lines as text, without white space at the end. -/
def render (unit : String) (lines : List Line) : String :=
  trimEnd (String.join (lines.map (renderLine unit)))

end SqlFormat.Layout

namespace SqlFormat

/-- The text of a token sequence. There is none if alignment would split a character. -/
def layout? (ctx : Layout.Context) (tokens : List Token) : Option String :=
  (Layout.Alignment.alignAll? ctx.style (Layout.linesOf ctx tokens)).map
    (Layout.render ctx.style.indent)

end SqlFormat

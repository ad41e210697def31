import SqlFormat.Checked.Alignment
import SqlFormat.Checked.Step
import SqlFormat.Layout

/-!
# Layout without a fault

Tokens become lines, lines are aligned, and aligned lines become text, or the first fault on the way
is the result.
-/

namespace SqlFormat.Checked

open SqlFormat.Layout Text

/-- Lines as text, cut off where the white space at the end starts. -/
def render (unit : String) (lines : List Line) : Checked String :=
  let text := String.join (lines.map (renderLine unit))
  substring text 0 (trimEnd text).utf8ByteSize

/-- The text of a token sequence. -/
def layout (ctx : Context) (tokens : Array Token) : Checked String := do
  render ctx.style.indent (← Alignment.alignAll ctx.style (← linesOf ctx tokens))

end SqlFormat.Checked

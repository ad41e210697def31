import SqlFormat.Color
import SqlFormat.Diff.Lines

/-!
# Showing differences

The difference of two texts, line by line: lines that were taken out with a minus sign, new ones with
a plus sign, and the others with a space.
-/

namespace SqlFormat.Diff

/-- The sign before a line. -/
def Tag.sign : Tag → String
  | .keep => " "
  | .delete => "-"
  | .insert => "+"

/-- The colour of a line. -/
def Tag.attributes : Tag → String
  | .keep => ""
  | .delete => Ansi.red
  | .insert => Ansi.green

/-- A line that ends with a line break. -/
def endsLine (line : String) : Bool :=
  line.toList.getLast?.any fun c => c == '\n' || c == '\r'

/-- A line with its sign. Two line breaks stand after a line that has none of its own. -/
def renderLine (color : Bool) (tag : Tag) (line : String) : String :=
  let text := tag.sign ++ line ++ if endsLine line then "" else "\n\n"
  if color then Ansi.paint tag.attributes text else text

/-- The difference of two texts of a file. -/
def render (color : Bool) (path : String) (old new : String) : String :=
  "--- " ++ path ++ "\n+++ " ++ path ++ "\n" ++
    String.join ((changes (splitLines old) (splitLines new)).map fun (tag, line) =>
      renderLine color tag line)

end SqlFormat.Diff

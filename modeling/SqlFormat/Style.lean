import SqlFormat.Color
import SqlFormat.Dialect
import SqlFormat.Parameters

/-!
# Style

How formatted text looks.
-/

namespace SqlFormat

/-- How formatted text looks. -/
structure Style where
  /-- One level of indentation. -/
  indent : String
  keywordCase : KeywordCase
  /-- Empty lines between statements. -/
  linesBetweenQueries : Nat
  /-- The width that a bracket group on one line keeps to; 0 is no limit. -/
  maxLineLength : Nat
  /-- Line up the aliases of a `SELECT` list. -/
  alignColumns : Bool
  /-- Line up the assignments of a `SET` list or a procedural block. -/
  alignAssignments : Bool
  /-- Line up the tuples of `VALUES`. -/
  alignValues : Bool
  /-- Leave the inside of block comments as it is. -/
  preserveCommentIndent : Bool
  dialect : Dialect
  params : Parameters
  color : ColorPolicy
deriving DecidableEq, Repr

namespace Style

/-- The style that holds unless something else is asked for. -/
def standard : Style where
  indent := "  "
  keywordCase := .preserve
  linesBetweenQueries := 1
  maxLineLength := 0
  alignColumns := false
  alignAssignments := false
  alignValues := false
  preserveCommentIndent := false
  dialect := .standard
  params := .empty
  color := .never

/-- Indentation by a number of spaces. -/
def spaces (width : Nat) : String :=
  String.ofList (List.replicate width ' ')

/-- The columns that one level of indentation is counted as. -/
def indentWidth (style : Style) : Nat :=
  max 1 style.indent.length

end Style

end SqlFormat

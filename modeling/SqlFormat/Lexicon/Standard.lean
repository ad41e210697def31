import SqlFormat.Lexicon.Shared

/-!
# Standard SQL
-/

namespace SqlFormat.Lexicon

/-- The lexicon of standard SQL. -/
def standard : Lexicon where
  name := "standard"
  topLevel := [Shared.topLevel]
  topLevelNoIndent := [Shared.topLevelNoIndent]
  newline := [Shared.newline]
  reserved := [Shared.reserved]
  openers := Shared.simpleOpeners
  closers := Shared.simpleClosers
  blockSections := Shared.blockSections
  strings := Shared.allQuotes
  prefixedStrings := [('N', false), ('n', false), ('X', false), ('x', false)]
  dollarQuotes := false
  bracketParens := true
  lineComments := ["--"]
  placeholders := ⟨['?', '$'], [':'], 0⟩
  variablePrefixes := []

end SqlFormat.Lexicon

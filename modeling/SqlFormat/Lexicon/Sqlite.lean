import SqlFormat.Lexicon.Shared

/-!
# SQLite

Identifiers in `[ ]`, and three ways to write a named placeholder.
-/

namespace SqlFormat.Lexicon

namespace Sqlite

def topLevel : List String :=
  ["insert or ignore into", "insert or replace into", "pragma", "returning"]

def reserved : List String :=
  ["autoincrement", "deferred", "exclusive", "glob", "immediate", "vacuum", "without rowid"]

end Sqlite

/-- The lexicon of SQLite. -/
def sqlite : Lexicon where
  name := "sqlite"
  topLevel := [Shared.topLevel, Sqlite.topLevel]
  topLevelNoIndent := [Shared.topLevelNoIndent]
  newline := [Shared.newline]
  reserved := [Shared.reserved, Sqlite.reserved]
  openers := Shared.simpleOpeners
  closers := Shared.simpleClosers
  blockSections := Shared.blockSections
  strings := Shared.allQuotes ++ [⟨'[', ']', false⟩]
  prefixedStrings := [('X', false), ('x', false)]
  dollarQuotes := false
  bracketParens := false
  lineComments := ["--"]
  placeholders := ⟨['?'], [':', '@', '$'], 1⟩
  variablePrefixes := []

end SqlFormat.Lexicon

import SqlFormat.Lexicon.Shared

/-!
# IBM DB2
-/

namespace SqlFormat.Lexicon

namespace Db2

def topLevel : List String :=
  ["fetch first", "fetch next"]

def newline : List String :=
  ["elseif"]

def reserved : List String :=
  ["current date", "current time", "current timestamp", "declare", "do", "iterate", "leave",
   "rows only", "signal", "sysdummy1", "sysibm"]

end Db2

/-- The lexicon of IBM DB2. -/
def db2 : Lexicon where
  name := "db2"
  topLevel := [Shared.topLevel, Db2.topLevel]
  topLevelNoIndent := [Shared.topLevelNoIndent]
  newline := [Shared.newline, Db2.newline]
  reserved := [Shared.reserved, Db2.reserved]
  openers := Shared.loopOpeners
  closers := Shared.loopClosers
  blockSections := Shared.blockSections
  strings := Shared.ansiQuotes
  prefixedStrings := [('X', false), ('x', false), ('G', false), ('g', false)]
  dollarQuotes := false
  bracketParens := true
  lineComments := ["--"]
  placeholders := ⟨['?'], [':'], 0⟩
  variablePrefixes := []

end SqlFormat.Lexicon

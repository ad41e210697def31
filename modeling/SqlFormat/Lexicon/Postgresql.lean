import SqlFormat.Lexicon.Shared

/-!
# PostgreSQL

Dollar-quoted strings, numbered placeholders, and the blocks of its procedural language.
-/

namespace SqlFormat.Lexicon

namespace Postgresql

def topLevel : List String :=
  ["declare", "do nothing", "do update set", "on conflict", "returning"]

def newline : List String :=
  ["elsif", "exception"]

def reserved : List String :=
  ["exception", "is distinct from", "is not distinct from", "language", "notice", "perform",
   "plpgsql", "raise", "returns", "similar to"]

def openers : List (String × Opener) :=
  [("begin", Shared.body), ("case", Shared.case), ("if", Shared.ifThen), ("loop", Shared.body)]

def closers : List (String × List String) :=
  [("end", ["case", "begin"]), ("end case", ["case"]), ("end if", ["if"]),
   ("end loop", ["loop"])]

def blockSections : List String :=
  ["else", "elsif", "exception"]

end Postgresql

/-- The lexicon of PostgreSQL. -/
def postgresql : Lexicon where
  name := "postgresql"
  topLevel := [Shared.topLevel, Postgresql.topLevel]
  topLevelNoIndent := [Shared.topLevelNoIndent]
  newline := [Shared.newline, Postgresql.newline]
  reserved := [Shared.reserved, Postgresql.reserved]
  openers := Postgresql.openers
  closers := Postgresql.closers
  blockSections := Postgresql.blockSections
  strings := Shared.ansiQuotes
  prefixedStrings :=
    [('E', true), ('e', true), ('B', false), ('b', false), ('X', false), ('x', false)]
  dollarQuotes := true
  bracketParens := true
  lineComments := ["--"]
  placeholders := ⟨['$'], [':'], 1⟩
  variablePrefixes := []

end SqlFormat.Lexicon

import SqlFormat.Lexicon.Shared

/-!
# Oracle PL/SQL

Here `DECLARE` opens a block, which `BEGIN` continues.
-/

namespace SqlFormat.Lexicon

namespace Plsql

def topLevel : List String :=
  ["connect by", "model", "returning", "start with"]

def topLevelNoIndent : List String :=
  ["minus"]

def newline : List String :=
  ["elsif", "exception"]

def reserved : List String :=
  ["close", "cursor", "dual", "exit when", "fetch", "nocopy", "number", "nvl", "open", "out",
   "pragma", "raise", "rownum", "sysdate", "varchar2"]

def openers : List (String × Opener) :=
  [("begin", Shared.body), ("case", Shared.case), ("declare", Shared.body),
   ("if", Shared.ifThen), ("loop", Shared.body)]

def closers : List (String × List String) :=
  [("end", ["case", "begin", "declare"]), ("end case", ["case"]), ("end if", ["if"]),
   ("end loop", ["loop"])]

def blockSections : List String :=
  ["else", "elsif", "exception"]

end Plsql

/-- The lexicon of Oracle PL/SQL. -/
def plsql : Lexicon where
  name := "plsql"
  topLevel := [Shared.topLevel, Plsql.topLevel]
  topLevelNoIndent := [Shared.topLevelNoIndent, Plsql.topLevelNoIndent]
  newline := [Shared.newline, Plsql.newline]
  reserved := [Shared.reserved, Plsql.reserved]
  openers := Plsql.openers
  closers := Plsql.closers
  blockSections := Plsql.blockSections
  strings := Shared.ansiQuotes
  prefixedStrings := [('N', false), ('n', false)]
  dollarQuotes := false
  bracketParens := true
  lineComments := ["--"]
  placeholders := ⟨['?'], [':'], 0⟩
  variablePrefixes := []

end SqlFormat.Lexicon

import SqlFormat.Lexicon.Shared

/-!
# MySQL

Backslash escapes in strings, `#` comments, and session variables.
-/

namespace SqlFormat.Lexicon

namespace Mysql

def topLevel : List String :=
  ["on duplicate key update", "replace into", "straight_join"]

def newline : List String :=
  ["elseif", "until", "xor"]

def reserved : List String :=
  ["auto_increment", "charset", "declare", "div", "do", "engine", "handler", "iterate", "leave",
   "regexp", "rlike", "unsigned"]

end Mysql

/-- The lexicon of MySQL. -/
def mysql : Lexicon where
  name := "mysql"
  topLevel := [Shared.topLevel, Mysql.topLevel]
  topLevelNoIndent := [Shared.topLevelNoIndent]
  newline := [Shared.newline, Mysql.newline]
  reserved := [Shared.reserved, Mysql.reserved]
  openers := Shared.loopOpeners
  closers := Shared.loopClosers
  blockSections := Shared.blockSections
  strings := Shared.escapedQuotes
  prefixedStrings := [('N', true), ('n', true), ('X', false), ('x', false)]
  dollarQuotes := false
  bracketParens := true
  lineComments := ["--", "#"]
  placeholders := ⟨['?'], [], 0⟩
  variablePrefixes := ['@']

end SqlFormat.Lexicon

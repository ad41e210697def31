import SqlFormat.Lexicon.Shared

/-!
# Couchbase N1QL
-/

namespace SqlFormat.Lexicon

namespace N1ql

def topLevel : List String :=
  ["explain", "infer", "let", "letting", "nest", "unnest", "upsert into", "use index", "use keys"]

def reserved : List String :=
  ["element", "every", "keyspace", "missing", "namespace", "raw", "satisfies", "some", "valued",
   "within"]

end N1ql

/-- The lexicon of Couchbase N1QL. -/
def n1ql : Lexicon where
  name := "n1ql"
  topLevel := [Shared.topLevel, N1ql.topLevel]
  topLevelNoIndent := [Shared.topLevelNoIndent]
  newline := [Shared.newline]
  reserved := [Shared.reserved, N1ql.reserved]
  openers := [("case", Shared.case)]
  closers := [("end", ["case"])]
  blockSections := Shared.blockSections
  strings := Shared.escapedQuotes
  prefixedStrings := []
  dollarQuotes := false
  bracketParens := true
  lineComments := ["--", "#"]
  placeholders := ⟨['$'], ['$'], 1⟩
  variablePrefixes := []

end SqlFormat.Lexicon

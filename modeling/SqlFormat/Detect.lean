import SqlFormat.Detect.Pattern
import SqlFormat.Dialect

/-!
# Detecting the dialect

A comment near the top may name the dialect. Otherwise every pattern that occurs in the text is a vote
for its dialect. The dialect with the most votes is taken, and of several the first in the list of
dialects; without a vote it is standard SQL.
-/

namespace SqlFormat.Detect

open Pattern

/-- The number of lines that are searched for a comment that names the dialect. -/
def hintLines : Nat := 5

/-- The characters of a dialect name in a comment. -/
def isNameChar (c : Char) : Bool :=
  c.isAlphanum || c == '_' || c == '/' || c == 'ſ' || c == '\u212A'

/-- A comment that names the dialect, up to the name. -/
def hint : Pattern :=
  all [either (exactly "--") (exactly "/*"), space, letters "sqlpretty:", space,
    letters "dialect", space, char '=', space]

/-- The first match of the comment in a line ends before a name. The name is what follows. -/
def hintedName? (line : List Char) : Option String :=
  ((seq hint (one isNameChar)).firstEnd? none line).bind fun place =>
    place.before.map fun c => String.ofList (c :: place.after.takeWhile isNameChar)

/-- The dialect that a comment near the top names. -/
def hinted? (text : String) : Option Dialect :=
  ((Text.splitOn '\n' text.toList).take hintLines).findSome? fun line =>
    (hintedName? line).bind Dialect.ofName?

/-- The patterns and the dialects that they vote for. -/
def rules : List (Dialect × Pattern) :=
  [(.postgresql, exactly "$$"),
   (.postgresql, all [char '$', nameStart, many isWord, char '$']),
   (.postgresql, all [exactly "::", space, nameStart]),
   (.postgresql, phrase ["returning"]),
   (.postgresql, phrase ["on", "conflict"]),
   (.postgresql, phrase ["ilike"]),
   (.postgresql, all [boundary, opt (letters "big"), letters "serial", boundary]),
   (.postgresql, exactly "->>"),
   (.mysql, char '\x60'),
   (.mysql, phrase ["auto_increment"]),
   (.mysql, all [boundary, letters "engine", space, char '=']),
   (.mysql, phrase ["delimiter"]),
   (.mysql, phrase ["unsigned"]),
   (.mysql, all [boundary, letters "limit", space₁, digits₁, space, char ',', space, digits₁]),
   (.sqlite, phrase ["pragma"]),
   (.sqlite, phrase ["autoincrement"]),
   (.sqlite, phrase ["without", "rowid"]),
   (.sqlite, all [boundary, letters "sqlite_", one isWord]),
   (.plsql, exactly ":="),
   (.plsql, all [char '%', opt (letters "row"), letters "type", boundary]),
   (.plsql, phrase ["varchar2"]),
   (.plsql, phrase ["elsif"]),
   (.plsql, phrase ["from", "dual"]),
   (.plsql, all [boundary, letters "nvl", space, char '(']),
   (.n1ql, phrase ["use", "keys"]),
   (.n1ql, all [boundary, opt (letters "un"), letters "nest", boundary]),
   (.n1ql, all [boundary, letters "meta", space, char '(']),
   (.db2, phrase ["sysibm"]),
   (.db2, phrase ["sysdummy1"]),
   (.db2, phrase ["with", "ur"]),
   (.db2, all [boundary, letters "fetch", space₁, letters "first", space₁, digits₁, space₁,
     letters "row", opt (letters "s"), space₁, letters "only", boundary])]

/-- The votes that a text casts for a dialect. -/
def votes (text : List Char) (dialect : Dialect) : Nat :=
  (rules.filter fun (d, pattern) => d == dialect && pattern.occursIn text).length

/-- The better of the best so far and a dialect with its votes; a tie keeps the best so far. -/
def better (best : Dialect × Nat) (dialect : Dialect) (count : Nat) : Dialect × Nat :=
  if best.2 < count then (dialect, count) else best

/-- The dialect of a text, and whether anything in the text speaks for it. -/
def dialectOf (text : String) : Dialect × Bool :=
  match hinted? text with
  | some dialect => (dialect, true)
  | none =>
    let best := Dialect.all.foldl (fun best d => better best d (votes text.toList d))
      (.standard, 0)
    (best.1, 0 < best.2)

end SqlFormat.Detect

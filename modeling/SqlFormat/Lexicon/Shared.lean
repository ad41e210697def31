import SqlFormat.Lexicon

/-!
# Tables that the dialects share

The common layer of each keyword table, the block openers and closers, and the string delimiters.
-/

namespace SqlFormat.Lexicon.Shared

/-! ## Keywords -/

def topLevel : List String :=
  ["add", "alter column", "alter table", "create function", "create index",
   "create or replace function", "create or replace procedure", "create or replace trigger",
   "create or replace view", "create procedure", "create table", "create trigger",
   "create unique index", "create view", "delete", "delete from", "drop column", "drop table",
   "from", "group by", "having", "insert", "insert into", "limit", "merge into", "offset",
   "order by", "select", "set", "truncate table", "update", "values", "where", "window", "with",
   "with recursive"]

def topLevelNoIndent : List String :=
  ["except", "except all", "intersect", "intersect all", "union", "union all", "union distinct"]

def newline : List String :=
  ["and", "cross join", "else", "full join", "full outer join", "inner join", "join", "left join",
   "left outer join", "natural join", "natural left join", "natural right join", "or",
   "right join", "right outer join", "when"]

def reserved : List String :=
  ["all", "alter", "any", "array", "as", "asc", "begin", "between", "both", "by", "cascade",
   "cast", "check", "collate", "column", "commit", "constraint", "create", "cross",
   "current_date", "current_time", "current_timestamp", "default", "desc", "distinct", "drop",
   "escape", "exists", "false", "fetch", "filter", "first", "following", "for", "foreign", "full",
   "function", "grant", "if", "ilike", "in", "index", "inner", "interval", "into", "is", "key",
   "last", "lateral", "leading", "left", "like", "natural", "next", "not", "null", "nulls", "of",
   "on", "only", "outer", "over", "partition by", "preceding", "primary key", "procedure",
   "range", "recursive", "references", "replace", "right", "rollback", "row", "rows", "savepoint",
   "table", "then", "ties", "to", "trailing", "transaction", "trigger", "true", "unbounded",
   "unique", "unknown", "using", "view", "work"]

def blockSections : List String :=
  ["else", "elseif", "elsif"]

/-! ## Openers and closers -/

/-- `CASE … END`. -/
def case : Opener := ⟨.case, none⟩

/-- A block whose body starts right after the opener. -/
def body : Opener := ⟨.procedural, none⟩

/-- A block with a header that `THEN` ends. -/
def ifThen : Opener := ⟨.procedural, some "then"⟩

/-- A block with a header that `DO` ends. -/
def whileDo : Opener := ⟨.procedural, some "do"⟩

/-- `CASE` and `BEGIN`, of the dialects without procedural statements. -/
def simpleOpeners : List (String × Opener) :=
  [("begin", body), ("case", case)]

def simpleClosers : List (String × List String) :=
  [("end", ["case", "begin"]), ("end case", ["case"])]

/-- The openers of the dialects with all the loops. -/
def loopOpeners : List (String × Opener) :=
  [("begin", body), ("case", case), ("if", ifThen), ("loop", body), ("repeat", body),
   ("while", whileDo)]

def loopClosers : List (String × List String) :=
  [("end", ["case", "begin"]), ("end case", ["case"]), ("end if", ["if"]),
   ("end loop", ["loop"]), ("end repeat", ["repeat"]), ("end while", ["while"])]

/-! ## Delimiters -/

/-- Quotes for strings and identifiers. -/
def ansiQuotes : List StringStyle :=
  [.quoted '\x27', .quoted '\x22']

/-- The same with the backquote. -/
def allQuotes : List StringStyle :=
  [.quoted '\x27', .quoted '\x22', .quoted '\x60']

/-- All three quotes, with backslash escapes. -/
def escapedQuotes : List StringStyle :=
  [.escaped '\x27', .escaped '\x22', .escaped '\x60']

end SqlFormat.Lexicon.Shared

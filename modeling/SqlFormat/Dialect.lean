import SqlFormat.KeywordCase
import SqlFormat.Lexicon.Db2
import SqlFormat.Lexicon.Mysql
import SqlFormat.Lexicon.N1ql
import SqlFormat.Lexicon.Plsql
import SqlFormat.Lexicon.Postgresql
import SqlFormat.Lexicon.Sqlite
import SqlFormat.Lexicon.Standard

/-!
# Dialects

A dialect of SQL has a lexicon and a few rules of layout: the spaces around operators, the space
before the bracket of an array, and the case that its keywords are usually written in.
-/

namespace SqlFormat

/-- A dialect of SQL. -/
inductive Dialect where
  | standard
  | postgresql
  | mysql
  | sqlite
  | plsql
  | n1ql
  | db2
deriving DecidableEq, Repr, Inhabited

/-- Whether a space stands before and after an operator. -/
structure Spacing where
  before : Bool
  after : Bool
deriving DecidableEq, Repr

namespace Spacing

def both : Spacing := ⟨true, true⟩

def tight : Spacing := ⟨false, false⟩

def trailing : Spacing := ⟨false, true⟩

end Spacing

namespace Dialect

/-- All dialects, in the order in which ties between them are broken. -/
def all : List Dialect :=
  [standard, postgresql, mysql, sqlite, plsql, n1ql, db2]

/-- The words and delimiters of a dialect. -/
def lexicon : Dialect → Lexicon
  | standard => .standard
  | postgresql => .postgresql
  | mysql => .mysql
  | sqlite => .sqlite
  | plsql => .plsql
  | n1ql => .n1ql
  | db2 => .db2

/-- The name of a dialect. -/
def name : Dialect → String
  | standard => "standard"
  | postgresql => "postgresql"
  | mysql => "mysql"
  | sqlite => "sqlite"
  | plsql => "plsql"
  | n1ql => "n1ql"
  | db2 => "db2"

/-- The dialect that a name stands for: one of its names, in any case of letters and with white
space around it. -/
def ofName? (s : String) : Option Dialect :=
  match Text.lowerAscii (Text.trim s) with
  | "standard" | "sql" | "ansi" => some standard
  | "postgresql" | "postgres" | "pg" => some postgresql
  | "mysql" | "mariadb" => some mysql
  | "sqlite" => some sqlite
  | "plsql" | "pl/sql" | "oracle" => some plsql
  | "n1ql" | "couchbase" => some n1ql
  | "db2" => some db2
  | _ => none

/-- The spaces around an operator. Dots and casts bind tightly, and so do attributes and ranges in
PL/SQL; separators follow what they separate. -/
def spacing (dialect : Dialect) (op : String) : Spacing :=
  if op == "." || op == "::" then .tight
  else if op == "," || op == ";" || op == ":" then .trailing
  else if dialect == plsql && (op == "%" || op == "..") then .tight
  else .both

/-- Whether `ARRAY[` is written with a space. -/
def arrayBracketSpace (dialect : Dialect) : Bool :=
  dialect == postgresql

/-- The case in which keywords are usually written. -/
def defaultCase : Dialect → KeywordCase
  | plsql | n1ql | db2 => .upper
  | _ => .preserve

end Dialect

end SqlFormat

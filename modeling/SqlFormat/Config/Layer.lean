import SqlFormat.Settings
import SqlFormat.Text.Count
import SqlFormat.Toml.Value

/-!
# Layers of configuration

A layer is what one source of configuration sets, and only that: a file, the environment, or the
command line. Putting a layer over settings replaces what it sets and leaves the rest.
-/

namespace SqlFormat

/-- What one source of configuration sets. -/
structure Layer where
  dialectName : Option String
  indent : Option String
  keywordCase : Option KeywordCase
  linesBetweenQueries : Option Nat
  maxLineLength : Option Nat
  alignColumns : Option Bool
  alignAssignments : Option Bool
  alignValues : Option Bool
  preserveCommentIndent : Option Bool
  exclude : Option (List String)
  params : Option Parameters
deriving DecidableEq, Repr

namespace Layer

/-- A layer that sets nothing. -/
def empty : Layer where
  dialectName := none
  indent := none
  keywordCase := none
  linesBetweenQueries := none
  maxLineLength := none
  alignColumns := none
  alignAssignments := none
  alignValues := none
  preserveCommentIndent := none
  exclude := none
  params := none

/-- Settings with a layer put over them. -/
def onto (layer : Layer) (settings : Settings) : Settings :=
  let style := settings.style
  { settings with
    dialectName := layer.dialectName.getD settings.dialectName
    exclude := layer.exclude.getD settings.exclude
    style :=
      { style with
        indent := layer.indent.getD style.indent
        keywordCase := layer.keywordCase.getD style.keywordCase
        linesBetweenQueries := layer.linesBetweenQueries.getD style.linesBetweenQueries
        maxLineLength := layer.maxLineLength.getD style.maxLineLength
        alignColumns := layer.alignColumns.getD style.alignColumns
        alignAssignments := layer.alignAssignments.getD style.alignAssignments
        alignValues := layer.alignValues.getD style.alignValues
        preserveCommentIndent := layer.preserveCommentIndent.getD style.preserveCommentIndent
        params := layer.params.getD style.params } }

/-! ## Names -/

/-- A dialect name in a file or in the environment: `auto`, or the name of a dialect. -/
def checkDialect (name : String) : Except Error String :=
  if name = "auto" || (Dialect.ofName? name).isSome then .ok name
  else .error (.unknownDialect name)

/-- The case that a name stands for. -/
def checkCase (name : String) : Except Error KeywordCase :=
  match KeywordCase.ofName? name with
  | some c => .ok c
  | none => .error (.config (.invalidKeywordCase name))

/-! ## Files -/

/-- The options that a file may set. -/
def options : List String :=
  ["dialect", "indent", "indent_width", "use_tabs", "keyword_case", "lines_between_queries",
   "max_line_length", "align_columns", "align_assignments", "align_values",
   "preserve_comment_indent", "exclude", "params"]

/-- The value of an option, if it is set. -/
def option (table : Toml.Table) (key : String)
    (read : Toml.Value → Except Error α) : Except Error (Option α) :=
  match table.lookup key with
  | some v => (read v).map some
  | none => .ok none

/-- A value that must be a boolean. -/
def boolean (key : String) : Toml.Value → Except Error Bool
  | .boolean b => .ok b
  | _ => .error (.config (.notBoolean key))

/-- A value that must be a string. -/
def string (key : String) : Toml.Value → Except Error String
  | .string s => .ok s
  | _ => .error (.config (.notString key))

/-- A value that must be an integer, and not negative. -/
def count (key : String) : Toml.Value → Except Error Nat
  | .integer n => if 0 ≤ n then .ok n.toNat else .error (.config (.notCount key))
  | _ => .error (.config (.notCount key))

/-- The strings of an array; other values in it are ignored. -/
def strings (key : String) : Toml.Value → Except Error (List String)
  | .array values => .ok (values.filterMap fun
      | .string s => some s
      | _ => none)
  | _ => .error (.config (.notArray key))

/-- The text of a string, or of a date or a time. -/
def text? : Toml.Value → Option String
  | .string s | .datetime s => some s
  | _ => none

/-- Parameters: an array of texts, or a table of texts. -/
def parameters : Toml.Value → Except Error Parameters
  | .array values =>
    match values.mapM text? with
    | some values => .ok (.positional values)
    | none => .error .value
  | .table entries =>
    match entries.mapM fun (k, v) => (text? v).map (k, ·) with
    | some entries => .ok (.named entries)
    | none => .error .value
  | _ => .error .value

/-- The indentation that a file sets: tabs before a width, and a width before a text. -/
def indentOf (text : Option String) (width : Option Nat) (tabs : Option Bool) : Option String :=
  if tabs = some true then some "\t"
  else (width.map Style.spaces).or text

/-- What a file sets. The first option that is unknown or wrong is the error. -/
def ofTable (table : Toml.Table) : Except Error Layer := do
  if let some (key, _) := table.find? fun (key, _) => !options.contains key then
    throw (.config (.unknownOption key))
  let dialectName ← option table "dialect" fun v => do checkDialect (← string "dialect" v)
  let indentText ← option table "indent" (string "indent")
  let indentWidth ← option table "indent_width" (count "indent_width")
  let useTabs ← option table "use_tabs" (boolean "use_tabs")
  let keywordCase ← option table "keyword_case" fun v => do checkCase (← string "keyword_case" v)
  let linesBetweenQueries ← option table "lines_between_queries" (count "lines_between_queries")
  let maxLineLength ← option table "max_line_length" (count "max_line_length")
  let alignColumns ← option table "align_columns" (boolean "align_columns")
  let alignAssignments ← option table "align_assignments" (boolean "align_assignments")
  let alignValues ← option table "align_values" (boolean "align_values")
  let preserveCommentIndent ←
    option table "preserve_comment_indent" (boolean "preserve_comment_indent")
  let exclude ← option table "exclude" (strings "exclude")
  let params ← option table "params" parameters
  return {
    dialectName, keywordCase, linesBetweenQueries, maxLineLength, alignColumns, alignAssignments,
    alignValues, preserveCommentIndent, exclude, params
    indent := indentOf indentText indentWidth useTabs }

/-! ## The environment -/

/-- Variables of the environment with their values. -/
abbrev Environment := List (String × String)

/-- The indentation that a variable sets: a number of spaces, tabs, or the text itself. -/
def indentOfVariable (s : String) : String :=
  match Text.count? s with
  | some width => Style.spaces width
  | none => if s = "tab" || s = "tabs" then "\t" else s

/-- What the environment sets. -/
def ofEnvironment (env : Environment) : Except Error Layer := do
  let dialectName ← (env.lookup "SQLPRETTY_DIALECT").mapM checkDialect
  let keywordCase ← (env.lookup "SQLPRETTY_KEYWORD_CASE").mapM checkCase
  let indent := (env.lookup "SQLPRETTY_INDENT").map indentOfVariable
  return { empty with dialectName, keywordCase, indent }

end Layer

end SqlFormat

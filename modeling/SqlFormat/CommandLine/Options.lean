import SqlFormat.Config.Layer

/-!
# Options of the command line

Arguments are read from left to right. An option with a value takes it from the same argument or from
the next, which may not look like an option. Only two options may be given more than once.
-/

namespace SqlFormat.CommandLine

/-- The options. -/
inductive OptionName where
  | dialect
  | indentWidth
  | tabs
  | keywordCase
  | linesBetweenQueries
  | maxLineLength
  | alignColumns
  | alignAssignments
  | alignValues
  | preserveCommentIndent
  | param
  | check
  | diff
  | fast
  | exclude
  | verbose
  | quiet
  | noProgressBar
  | color
  | noColor
  | threads
  | singleProcess
  | config
  | help
  | version
deriving DecidableEq, Repr

/-- How an option is written. -/
structure Spelling where
  name : OptionName
  long : String
  short : Option Char
  takesValue : Bool

/-- All options. -/
def spellings : List Spelling :=
  [⟨.dialect, "dialect", some 'd', true⟩,
   ⟨.indentWidth, "indent-width", some 'i', true⟩,
   ⟨.tabs, "tabs", none, false⟩,
   ⟨.keywordCase, "keyword-case", some 'k', true⟩,
   ⟨.linesBetweenQueries, "lines-between-queries", none, true⟩,
   ⟨.maxLineLength, "max-line-length", some 'l', true⟩,
   ⟨.alignColumns, "align-columns", none, false⟩,
   ⟨.alignAssignments, "align-assignments", none, false⟩,
   ⟨.alignValues, "align-values", none, false⟩,
   ⟨.preserveCommentIndent, "preserve-comment-indent", none, false⟩,
   ⟨.param, "param", some 'p', true⟩,
   ⟨.check, "check", none, false⟩,
   ⟨.diff, "diff", none, false⟩,
   ⟨.fast, "fast", none, false⟩,
   ⟨.exclude, "exclude", none, true⟩,
   ⟨.verbose, "verbose", some 'v', false⟩,
   ⟨.quiet, "quiet", some 'q', false⟩,
   ⟨.noProgressBar, "no-progressbar", none, false⟩,
   ⟨.color, "color", none, false⟩,
   ⟨.noColor, "no-color", none, false⟩,
   ⟨.threads, "threads", some 't', true⟩,
   ⟨.singleProcess, "single-process", none, false⟩,
   ⟨.config, "config", none, true⟩,
   ⟨.help, "help", some 'h', false⟩,
   ⟨.version, "version", some 'V', false⟩]

/-- What the arguments ask for. -/
structure Options where
  files : List String
  dialect : Option String
  indentWidth : Option Nat
  keywordCase : Option KeywordCase
  linesBetweenQueries : Option Nat
  maxLineLength : Option Nat
  params : List String
  exclude : List String
  threads : Option Nat
  config : Option String
  /-- The options without a value that were given. -/
  flags : List OptionName
deriving DecidableEq, Repr

/-- Nothing has been asked for. -/
def Options.empty : Options where
  files := []
  dialect := none
  indentWidth := none
  keywordCase := none
  linesBetweenQueries := none
  maxLineLength := none
  params := []
  exclude := []
  threads := none
  config := none
  flags := []

/-- An option without a value was given. -/
def Options.has (o : Options) (name : OptionName) : Bool :=
  o.flags.contains name

/-- What comes of reading arguments. -/
inductive Request where
  | run (options : Options)
  | version
  | help
  /-- The arguments are wrong. -/
  | usage
deriving DecidableEq, Repr

/-- Give an option without a value. Asking for colour takes back that it was forbidden, and the
other way round. -/
def Options.setFlag (o : Options) (name : OptionName) : Option Options :=
  if o.has name then none
  else
    let flags := match name with
      | .color => o.flags.erase .noColor
      | .noColor => o.flags.erase .color
      | _ => o.flags
    some { o with flags := flags ++ [name] }

/-- A value where there was none. -/
def once (old : Option α) (new : Option α) : Option (Option α) :=
  match old, new with
  | none, some v => some (some v)
  | _, _ => none

/-- Give an option with a value. -/
def Options.setValue (o : Options) (name : OptionName) (value : String) : Option Options :=
  match name with
  | .dialect => (once o.dialect (some value)).map fun v => { o with dialect := v }
  | .indentWidth =>
    (once o.indentWidth (Text.count? value)).map fun v => { o with indentWidth := v }
  | .keywordCase =>
    (once o.keywordCase (KeywordCase.ofName? value)).map fun v => { o with keywordCase := v }
  | .linesBetweenQueries =>
    (once o.linesBetweenQueries (Text.count? value)).map fun v =>
      { o with linesBetweenQueries := v }
  | .maxLineLength =>
    (once o.maxLineLength (Text.count? value)).map fun v => { o with maxLineLength := v }
  | .threads => (once o.threads (Text.count? value)).map fun v => { o with threads := v }
  | .config =>
    if value.isEmpty then none
    else (once o.config (some value)).map fun v => { o with config := v }
  | .param => some { o with params := o.params ++ [value] }
  | .exclude => some { o with exclude := o.exclude ++ [value] }
  | _ => none

/-- Name a file or directory, which has a name. -/
def Options.addFile (o : Options) (file : String) : Option Options :=
  if file.isEmpty then none else some { o with files := o.files ++ [file] }

/-- An argument that is read as options: it starts with a dash and is longer. -/
def looksLikeOption (arg : String) : Bool :=
  match arg.toList with
  | '-' :: _ :: _ => true
  | _ => false

/-- What one argument comes to. -/
inductive Step where
  | options (o : Options)
  /-- The value of an option is to follow in the next argument. -/
  | awaits (o : Options) (name : OptionName)
  | done (request : Request)

/-- Give an option that stands alone. -/
def Step.ofFlag (o : Options) (name : OptionName) : Step :=
  match name with
  | .version => .done .version
  | .help => .done .help
  | _ =>
    match o.setFlag name with
    | some o => .options o
    | none => .done .usage

/-- Give an option with its value. -/
def Step.ofValue (o : Options) (name : OptionName) (value : String) : Step :=
  match o.setValue name value with
  | some o => .options o
  | none => .done .usage

/-- Read the options in an argument with one dash. The rest of the argument is the value of the first
that takes one; an equals sign before it is dropped. -/
def Step.ofShort (o : Options) : List Char → Step
  | [] => .options o
  | c :: cs =>
    match spellings.find? (·.short == some c) with
    | none => .done .usage
    | some spelling =>
      if spelling.takesValue then
        match cs with
        | [] => .awaits o spelling.name
        | '=' :: value => .ofValue o spelling.name (String.ofList value)
        | value => .ofValue o spelling.name (String.ofList value)
      else
        match Step.ofFlag o spelling.name with
        | .options o => Step.ofShort o cs
        | step => step

/-- Read an argument with two dashes, without them. -/
def Step.ofLong (o : Options) (cs : List Char) : Step :=
  let name := cs.takeWhile (· != '=')
  let value := cs.drop name.length
  match spellings.find? (·.long.toList == name) with
  | none => .done .usage
  | some spelling =>
    match spelling.takesValue, value with
    | true, [] => .awaits o spelling.name
    | true, _ :: value => .ofValue o spelling.name (String.ofList value)
    | false, [] => .ofFlag o spelling.name
    | false, _ :: _ => .done .usage

/-- Read an argument other than two dashes alone. -/
def Step.ofArgument (o : Options) (arg : String) : Step :=
  match arg.toList with
  | '-' :: '-' :: cs => .ofLong o cs
  | '-' :: c :: cs => .ofShort o (c :: cs)
  | _ =>
    match o.addFile arg with
    | some o => .options o
    | none => .done .usage

/-- All arguments have been read. At least one file is needed. -/
def Options.finish (o : Options) : Request :=
  if o.files.isEmpty then .usage else .run o

/-- Read arguments. After two dashes only files follow. -/
def readFrom (o : Options) : List String → Request
  | [] => o.finish
  | "--" :: files =>
    match files.foldlM Options.addFile o with
    | some o => o.finish
    | none => .usage
  | arg :: rest =>
    match Step.ofArgument o arg with
    | .options o => readFrom o rest
    | .done request => request
    | .awaits o name =>
      match rest with
      | [] => .usage
      | value :: rest =>
        if looksLikeOption value then .usage
        else match Step.ofValue o name value with
          | .options o => readFrom o rest
          | _ => .usage

/-- What the arguments ask for. -/
def read (args : List String) : Request :=
  readFrom .empty args

end SqlFormat.CommandLine

import SqlFormat.CommandLine.Options
import SqlFormat.CommandLine.Parameters
import SqlFormat.Config.Load
import SqlFormat.Run

/-!
# The command line

From arguments, files, the environment and standard input to an exit code, output, messages and
files. A single dash in place of the files formats standard input.
-/

namespace SqlFormat.CommandLine

/-- What a call can see. -/
structure World where
  source : Config.Source
  input : List UInt8
  outputIsTerminal : Bool
  messagesAreTerminal : Bool

/-- What a call comes to. -/
structure Result where
  code : Nat
  output : String
  messages : String
  tree : FileTree

/-- A dialect name on the command line: the name of a dialect, or `auto` in any case of letters. -/
def checkDialect (name : String) : Except Error String :=
  if Settings.detectsDialect name || (Dialect.ofName? name).isSome then .ok name
  else .error (.unknownDialect name)

/-- A flag that can only switch on. -/
def switch (o : Options) (name : OptionName) : Option Bool :=
  if o.has name then some true else none

/-- What the arguments set. -/
def layerOf (o : Options) : Except Error Layer := do
  let dialectName ← o.dialect.mapM checkDialect
  let params ← if o.params.isEmpty then pure none else some <$> parameters o.params
  return {
    dialectName, params
    indent := if o.has .tabs then some "\t" else o.indentWidth.map Style.spaces
    keywordCase := o.keywordCase
    linesBetweenQueries := o.linesBetweenQueries
    maxLineLength := o.maxLineLength
    alignColumns := switch o .alignColumns
    alignAssignments := switch o .alignAssignments
    alignValues := switch o .alignValues
    preserveCommentIndent := switch o .preserveCommentIndent
    exclude := if o.exclude.isEmpty then none else some o.exclude }

/-- Settings with what the arguments ask for. -/
def settingsFor (o : Options) (base : Settings) : Except Error Settings := do
  let layer ← layerOf o
  return { layer.onto base with
    check := o.has .check
    diff := o.has .diff
    fast := o.has .fast
    verbose := o.has .verbose
    quiet := o.has .quiet
    noProgressBar := o.has .noProgressBar
    noColor := o.has .noColor
    forceColor := o.has .color
    threads := o.threads.getD 0
    singleProcess := o.has .singleProcess }

/-- The environment forbids colour. -/
def World.noColor (world : World) : Bool :=
  (world.source.environment.lookup "NO_COLOR").isSome

/-- A call in which the formatter crashes. What is said about the crash is left out. -/
def crashed (tree : FileTree) : Result :=
  ⟨101, "", "", tree⟩

/-- Format standard input. -/
def formatInput (world : World) (settings : Settings) : Result :=
  let tree := world.source.tree
  let color := settings.colorPolicy.resolve world.outputIsTerminal world.noColor
  match Text.decode? world.input with
  | none =>
    ⟨2, "", "Error: Error reading stdin: " ++ FileFault.message .notText ++ "\n", tree⟩
  | some source =>
    match { settings with style := { settings.style with color := color } }.formatText source with
    | .ok text => ⟨0, text, "", tree⟩
    | .error .split => crashed tree
    | .error e => ⟨2, "", "Error: " ++ e.message ++ "\n", tree⟩

/-- A line for each file that changed. -/
def verboseLines (settings : Settings) (report : Report) : List String :=
  let verb := if settings.check || settings.diff then "would reformat " else "reformatted "
  if settings.verbose then
    (report.results.filter (·.status == .changed)).map fun result => verb ++ result.path
  else []

/-- What is said about a run. -/
def summaryLines (settings : Settings) (report : Report) : List String :=
  (if settings.quiet then []
    else verboseLines settings report ++ [report.summary (settings.check || settings.diff)]) ++
    report.errorLines

/-- Format files. -/
def formatFiles (world : World) (settings : Settings) (inputs : List Path) : Result :=
  let color := settings.colorPolicy.resolve world.messagesAreTerminal world.noColor
  let settings := { settings with style := { settings.style with color := color } }
  match Run.files world.source.tree settings inputs with
  | .error tree => crashed tree
  | .ok progress =>
    let lines := (summaryLines settings progress.report).map (· ++ "\n")
    { code := progress.report.exitCode settings.check
      output := ""
      messages := progress.shown ++ String.join lines
      tree := progress.tree }

/-- The version of the program. -/
def version : String := "sqlpretty 0.1.0\n"

/-- How the program is called. -/
def usage : String := "Usage: sqlpretty [OPTIONS] <FILES>...\n"

/-- Do what the arguments ask for. -/
def runOptions (world : World) (o : Options) : Result :=
  let inputs := o.files.map (⟨·⟩ : String → Path)
  match Config.load world.source inputs (o.config.map (⟨·⟩)) >>= settingsFor o with
  | .error e => ⟨2, "", e.message ++ "\n", world.source.tree⟩
  | .ok settings =>
    if o.files = ["-"] then formatInput world settings else formatFiles world settings inputs

/-- Do what a request asks for. -/
def perform (world : World) : Request → Result
  | .version => ⟨0, version, "", world.source.tree⟩
  | .help => ⟨0, usage, "", world.source.tree⟩
  | .usage => ⟨2, "", usage, world.source.tree⟩
  | .run o => runOptions world o

end SqlFormat.CommandLine

import SqlFormat.Diff
import SqlFormat.Files.Collect
import SqlFormat.Report
import SqlFormat.Settings

/-!
# Running over files

Every SQL file that the inputs lead to is formatted. A file that changes is written, unless only a
check or a difference was asked for. Where alignment would split a character the formatter crashes, and
the run ends there with the files as they are by then.
-/

namespace SqlFormat.Run

/-- What formatting a file comes to. -/
structure FileOutcome where
  result : FileResult
  /-- The new text, if it is to be written. -/
  written : Option String
  /-- The difference, if it is to be shown. -/
  shown : String

/-- A file with which something went wrong. -/
def FileOutcome.error (path : Path) (message : String) : FileOutcome :=
  ⟨⟨path.text, .error, some message⟩, none, ""⟩

/-- What the new text of a file comes to, where `source` is the old one. -/
def compareSource (settings : Settings) (path : Path) (source text : String) : FileOutcome :=
  if source = text then ⟨⟨path.text, .unchanged, none⟩, none, ""⟩
  else
    let dry := settings.check || settings.diff
    { result := ⟨path.text, .changed, none⟩
      written := if dry then none else some text
      shown :=
        if settings.diff then
          Diff.render (settings.style.color == .always) path.text source text
        else "" }

/-- The settings that files are formatted with: files are never coloured. -/
def plainSettings (settings : Settings) : Settings :=
  { settings with style := { settings.style with color := .never } }

/-- Format the text of a file. There is no outcome if the formatter crashes. -/
def formatSource (settings : Settings) (path : Path) (source : String) : Option FileOutcome :=
  match (plainSettings settings).formatText source with
  | .error .split => none
  | .error e => some (.error path e.message)
  | .ok text => some (compareSource settings path source text)

/-- Format a file. -/
def formatFile (tree : FileTree) (settings : Settings) (path : Path) : Option FileOutcome :=
  match tree.read path with
  | .error fault => some (.error path ("Read error: " ++ fault.message))
  | .ok source => formatSource settings path source

/-- The files after an outcome has been written. -/
def store (tree : FileTree) (path : Path) (outcome : FileOutcome) : FileTree × FileResult :=
  match outcome.written with
  | none => (tree, outcome.result)
  | some text =>
    match tree.write path text with
    | .ok tree => (tree, outcome.result)
    | .error fault =>
      (tree, ⟨path.text, .error, some ("Write error: " ++ fault.message)⟩)

/-- What a run has come to so far. -/
structure Progress where
  tree : FileTree
  report : Report
  shown : String

/-- Format one more file. A crash leaves the files as they are. -/
def step (settings : Settings) (progress : Progress) (path : Path) : Except FileTree Progress :=
  match formatFile progress.tree settings path with
  | none => .error progress.tree
  | some outcome =>
    let (tree, result) := store progress.tree path outcome
    .ok ⟨tree, progress.report.add result, progress.shown ++ outcome.shown⟩

/-- Format all SQL files that inputs lead to. After a crash there are only the files as they are by
then. -/
def files (tree : FileTree) (settings : Settings) (inputs : List Path) : Except FileTree Progress :=
  (Collect.paths tree settings.exclude inputs).foldlM (step settings) ⟨tree, .empty, ""⟩

end SqlFormat.Run

/-!
# Reports

What became of each file, and the summary and exit code that follow from it.
-/

namespace SqlFormat

/-- What became of a file. -/
inductive FileStatus where
  | unchanged
  /-- It was formatted, or would be. -/
  | changed
  | error
deriving DecidableEq, Repr

/-- The name of a status. -/
def FileStatus.name : FileStatus → String
  | unchanged => "unchanged"
  | changed => "changed"
  | error => "error"

/-- What became of a file, with its path. -/
structure FileResult where
  path : String
  status : FileStatus
  /-- What went wrong. -/
  message : Option String
deriving DecidableEq, Repr

/-- The results for the files of a run. -/
structure Report where
  results : List FileResult
deriving DecidableEq, Repr

namespace Report

/-- No results. -/
def empty : Report := ⟨[]⟩

/-- One more result. -/
def add (report : Report) (result : FileResult) : Report :=
  ⟨report.results ++ [result]⟩

/-- The number of files. -/
def total (report : Report) : Nat :=
  report.results.length

/-- The number of files with a status. -/
def count (report : Report) (status : FileStatus) : Nat :=
  (report.results.filter (·.status == status)).length

/-- Something went wrong with a file. -/
def hasErrors (report : Report) : Bool :=
  0 < report.count .error

/-- A file was formatted, or would be. -/
def hasChanges (report : Report) : Bool :=
  0 < report.count .changed

/-- A part of the summary, left out if it counts nothing. -/
def part (n : Nat) (what : String) : List String :=
  if n = 0 then [] else [toString n ++ " " ++ what]

/-- One line about all files. If nothing was written, it says what would be. -/
def summary (report : Report) (dry : Bool) : String :=
  String.intercalate ", "
    ([toString report.total ++ " file(s) processed"] ++
      part (report.count .changed) (if dry then "would be reformatted" else "reformatted") ++
      part (report.count .unchanged) "unchanged" ++
      part (report.count .error) "error(s)")

/-- A line for each error. -/
def errorLines (report : Report) : List String :=
  report.results.filterMap fun result =>
    result.message.map fun message => "error: " ++ result.path ++ ": " ++ message

/-- 2 after an error, 1 if a check found something to change, and 0 otherwise. -/
def exitCode (report : Report) (check : Bool) : Nat :=
  if report.hasErrors then 2 else if check && report.hasChanges then 1 else 0

end Report

end SqlFormat

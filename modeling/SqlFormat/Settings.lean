import SqlFormat.Detect
import SqlFormat.Equivalence
import SqlFormat.Format

/-!
# Settings

Everything that a run of the formatter can be told: the style, the dialect or that it is to be
detected, what to do with files, and what to print.
-/

namespace SqlFormat

/-- What a run of the formatter is told. -/
structure Settings where
  style : Style
  /-- The name of a dialect, or `auto`. -/
  dialectName : String
  /-- Only say which files would change. -/
  check : Bool
  /-- Show how files would change. -/
  diff : Bool
  /-- Do not compare the result with the source. -/
  fast : Bool
  /-- Patterns of files and directories to leave out. -/
  exclude : List String
  verbose : Bool
  quiet : Bool
  noProgressBar : Bool
  noColor : Bool
  forceColor : Bool
  /-- The number of threads, 0 for as many as there are cores. -/
  threads : Nat
  singleProcess : Bool
deriving DecidableEq, Repr

namespace Settings

/-- The settings that hold unless something else is asked for. -/
def standard : Settings where
  style := .standard
  dialectName := "auto"
  check := false
  diff := false
  fast := false
  exclude := []
  verbose := false
  quiet := false
  noProgressBar := false
  noColor := false
  forceColor := false
  threads := 0
  singleProcess := false

/-- The dialect is to be detected. -/
def detectsDialect (name : String) : Bool :=
  Text.lowerAscii name == "auto"

/-- The dialect to format a text in. -/
def dialectFor (settings : Settings) (source : String) : Except Error Dialect :=
  if detectsDialect settings.dialectName then .ok (Detect.dialectOf source).1
  else match Dialect.ofName? settings.dialectName with
    | some dialect => .ok dialect
    | none => .error (.unknownDialect settings.dialectName)

/-- When output is coloured. -/
def colorPolicy (settings : Settings) : ColorPolicy :=
  if settings.forceColor then .always
  else if settings.noColor then .never
  else .auto

/-- The result is compared with the source. With parameters it cannot be. -/
def checksResult (settings : Settings) : Bool :=
  !settings.fast && settings.style.params.isEmpty

/-- A text that is not empty ends with a line feed. -/
def endLine (text : String) : String :=
  if text.isEmpty then text else text ++ "\n"

/-- A text formatted in a dialect, as it is written to a file. -/
def formatAs (dialect : Dialect) (style : Style) (source : String) : Except Error String :=
  match format? dialect style source with
  | some text => .ok (endLine text)
  | none => .error .split

/-- Format a text, and compare the result with it unless the settings say otherwise. -/
def formatText (settings : Settings) (source : String) : Except Error String := do
  let dialect ← settings.dialectFor source
  let plain ← formatAs dialect { settings.style with color := .never } source
  if settings.checksResult then
    if let some mismatch := Equivalence.mismatch? dialect.lexicon source plain then
      throw (.equivalence mismatch)
  if settings.style.color = .always then
    formatAs dialect settings.style source
  else return plain

end Settings

end SqlFormat

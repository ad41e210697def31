import SqlFormat.Text.Quoted
import SqlFormat.Token

/-!
# Errors

What can go wrong around formatting, by cause, and the text that is shown for it.
-/

namespace SqlFormat

/-- Why a file cannot be read or written. -/
inductive FileFault where
  | notFound
  | notDirectory
  | isDirectory
  /-- The bytes are not UTF-8. -/
  | notText
deriving DecidableEq, Repr

/-- What is shown for a fault of a file. -/
def FileFault.message : FileFault → String
  | notFound => "No such file or directory (os error 2)"
  | notDirectory => "Not a directory (os error 20)"
  | isDirectory => "Is a directory (os error 21)"
  | notText => "stream did not contain valid UTF-8"

/-- What is wrong with a configuration. -/
inductive ConfigFault where
  | invalidKeywordCase (name : String)
  | fileMissing (path : String)
  | unparsable
  | unknownOption (key : String)
  | notBoolean (key : String)
  | notString (key : String)
  | notCount (key : String)
  | notArray (key : String)
  | mixedParameters (entry : String)
deriving DecidableEq, Repr

/-- What is shown for a fault of a configuration. -/
def ConfigFault.message : ConfigFault → String
  | invalidKeywordCase name =>
    "invalid keyword_case " ++ Text.quoted name ++
      " (expected preserve, upper, lower or dialect)"
  | fileMissing path => "Config file not found: " ++ path
  | unparsable => "Failed to parse"
  | unknownOption key => "Unknown config option: " ++ key
  | notBoolean key => key ++ " must be a boolean"
  | notString key => key ++ " must be a string"
  | notCount key => key ++ " must be a non-negative integer"
  | notArray key => key ++ " must be an array"
  | mixedParameters entry =>
    "cannot mix positional and named parameters: " ++ Text.quoted entry

/-- How formatted text differs from its source. -/
inductive Mismatch where
  /-- The numbers of tokens differ. -/
  | count (source formatted : Nat)
  /-- The kinds of the tokens at a position differ. -/
  | kind (position : Nat) (source formatted : Token)
  /-- The texts of the tokens at a position differ. -/
  | text (position : Nat) (source formatted : Token)
deriving DecidableEq, Repr

/-- What is shown for a difference. -/
def Mismatch.message : Mismatch → String
  | count source formatted =>
    "Token count mismatch: original has " ++ toString source ++ " tokens, formatted has " ++
      toString formatted
  | kind position source formatted =>
    "Token kind mismatch at position " ++ toString position ++
      ": original " ++ source.kind.name ++ " '" ++ source.text ++
      "', formatted " ++ formatted.kind.name ++ " '" ++ formatted.text ++ "'"
  | text position source formatted =>
    "Token text mismatch at position " ++ toString position ++
      ": original '" ++ source.text ++ "', formatted '" ++ formatted.text ++ "'"

/-- What can go wrong. -/
inductive Error where
  | config (fault : ConfigFault)
  | unknownDialect (name : String)
  | equivalence (mismatch : Mismatch)
  | file (fault : FileFault)
  /-- A value in a configuration file has not the form that is wanted. -/
  | value
  /-- Alignment would split a character. -/
  | split
deriving DecidableEq, Repr

/-- What is shown for an error. -/
def Error.message : Error → String
  | config fault => "sqlpretty config error: " ++ fault.message
  | unknownDialect name => "sqlpretty config error: unknown dialect " ++ Text.quoted name
  | equivalence mismatch => "sqlpretty equivalence error: " ++ mismatch.message
  | file fault => "IO error: " ++ fault.message
  | value => "TOML parse error"
  | split => "alignment splits a character"

end SqlFormat

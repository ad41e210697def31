import SqlFormat.Error
import SqlFormat.Parameters
import SqlFormat.Text.AlnumRanges

/-!
# Parameters on the command line

A value is given as such, for a list, or with a name and an equals sign before it, for a table.
-/

namespace SqlFormat.CommandLine

/-- The characters of names. -/
def isNameChar (c : Char) : Bool :=
  c == '_' || Text.alnumRanges.contains c

/-- A name and a value, if there is a name before the first equals sign. -/
def namedPair? (s : String) : Option (String × String) :=
  let name := s.toList.takeWhile (· != '=')
  match s.toList.drop name.length with
  | '=' :: value =>
    if !name.isEmpty && name.all isNameChar then some (String.ofList name, String.ofList value)
    else none
  | _ => none

/-- The parameters that are given: a list if none has a name, and a table if all have. -/
def parameters (given : List String) : Except Error Parameters :=
  if given.all fun s => (namedPair? s).isNone then .ok (.positional given)
  else do
    let pairs ← given.mapM fun s =>
      match namedPair? s with
      | some pair => .ok pair
      | none => .error (.config (.mixedParameters s))
    return .ofPairs pairs

end SqlFormat.CommandLine

import SqlFormat.Files.Glob
import SqlFormat.Files.Tree

/-!
# Collecting files

The SQL files that inputs lead to. A file named as an input is taken if it is an SQL file. From a
directory the SQL files in it and below it are taken, except what is hidden or excluded.
-/

namespace SqlFormat.Collect

/-- An entry is left out if its name starts with a dot, or a pattern matches its name or its path. -/
def skips (exclude : List Glob) (path : Path) (name : String) : Bool :=
  name.toList.head? == some '.' ||
    exclude.any fun glob => glob.accepts name || glob.accepts path.text

mutual

/-- The SQL files below a directory; a file has none below it. -/
def below (exclude : List Glob) (path : Path) : Node → List Path
  | .file _ => []
  | .directory entries => among exclude path entries

/-- The SQL files among and below the entries of a directory. -/
def among (exclude : List Glob) (path : Path) : Entries → List Path
  | .nil => []
  | .cons name node rest =>
    let here := path.join name
    (if skips exclude here name then []
      else match node with
        | .file _ => if here.isSql then [here] else []
        | .directory entries => among exclude here entries) ++
      among exclude path rest

end

/-- The SQL files that an input leads to. -/
def fromInput (tree : FileTree) (exclude : List Glob) (path : Path) : List Path :=
  match tree.node? path with
  | .ok (.file _) => if path.isSql then [path] else []
  | .ok node => below exclude path node
  | .error _ => []

/-- Insert a path into an ordered list, unless it is there already. -/
def insertPath (path : Path) : List Path → List Path
  | [] => [path]
  | other :: rest =>
    match path.order other with
    | .lt => path :: other :: rest
    | .eq => other :: rest
    | .gt => other :: insertPath path rest

/-- The SQL files that inputs lead to, in order. Patterns that cannot be read are ignored. -/
def paths (tree : FileTree) (exclude : List String) (inputs : List Path) : List Path :=
  let globs := exclude.filterMap Glob.parse?
  (inputs.flatMap (fromInput tree globs)).foldl (fun found path => insertPath path found) []

end SqlFormat.Collect

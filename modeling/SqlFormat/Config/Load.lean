import SqlFormat.Config.Layer
import SqlFormat.Files.Tree
import SqlFormat.Toml.Document

/-!
# Loading the configuration

The layers, lowest first: the user's file, the project's file, a file that was asked for, and the
environment. The project's file is searched for in the directories above the inputs.
-/

namespace SqlFormat.Config

/-- What a configuration is loaded from. -/
structure Source where
  tree : FileTree
  environment : Layer.Environment
  /-- The bytes of the user's file, if there is one. -/
  userFile : Option (List UInt8)

/-- The names of project files, in the order in which they are looked for. -/
def projectFiles : List String := ["sqlpretty.toml", ".sqlpretty.toml", "pyproject.toml"]

/-- The directory of an input: the input itself, or the directory that it is in. -/
def directoryOf (tree : FileTree) (input : Path) : List Path.Component :=
  if tree.isDirectory input then input.components
  else
    let parent := input.components.dropLast
    if parent.isEmpty then [.current] else parent

/-- The directories that are searched for a project file: for each input those from its own upward,
without those that an earlier input has given. -/
def searchDirectories (tree : FileTree) (inputs : List Path) : List (List Path.Component) :=
  (inputs.flatMap fun input => Path.ancestors (directoryOf tree input)).foldl
    (fun found directory => if found.contains directory then found else found ++ [directory]) []

/-- The project file of some inputs. -/
def projectFile? (tree : FileTree) (inputs : List Path) : Option Path :=
  (searchDirectories tree inputs).findSome? fun directory =>
    (projectFiles.map (Path.ofComponents directory).join).find? tree.isFile

/-- The table with its keys in lower case; of two keys that become the same the later counts. -/
def lowerKeys (table : Toml.Table) : Toml.Table :=
  table.foldl (fun lowered (key, v) => Toml.Table.insert (Text.lower key) v lowered) []

/-- The part of a file that is for this program: all of it, or one section of a file that it
shares. -/
def ownTable (isShared : Bool) (table : Toml.Table) : Toml.Table :=
  if isShared then
    match table.lookup "tool" with
    | some (.table tools) =>
      match tools.lookup "sqlpretty" with
      | some (.table own) => lowerKeys own
      | _ => []
    | _ => []
  else lowerKeys table

/-- What the text of a file sets. -/
def layerOfText (isShared : Bool) (text : String) : Except Error Layer :=
  match Toml.parse? text with
  | some table => Layer.ofTable (ownTable isShared table)
  | none => .error (.config .unparsable)

/-- What a file sets. -/
def layerOfFile (tree : FileTree) (path : Path) : Except Error Layer :=
  match tree.read path with
  | .ok text => layerOfText (path.fileName? == some "pyproject.toml") text
  | .error fault => .error (.file fault)

/-- What the user's file sets. -/
def userLayer (source : Source) : Except Error Layer :=
  match source.userFile with
  | none => .ok .empty
  | some bytes =>
    match Text.decode? bytes with
    | some text => layerOfText false text
    | none => .error (.file .notText)

/-- What the project's file sets. -/
def projectLayer (source : Source) (inputs : List Path) : Except Error Layer :=
  match projectFile? source.tree inputs with
  | none => .ok .empty
  | some path => layerOfFile source.tree path

/-- What a file that was asked for sets. -/
def explicitLayer (source : Source) : Option Path → Except Error Layer
  | none => .ok .empty
  | some path =>
    if source.tree.pathExists path then layerOfFile source.tree path
    else .error (.config (.fileMissing path.text))

/-- The settings for some inputs. -/
def load (source : Source) (inputs : List Path) (explicit : Option Path) :
    Except Error Settings := do
  let user ← userLayer source
  let project ← projectLayer source inputs
  let asked ← explicitLayer source explicit
  let environment ← Layer.ofEnvironment source.environment
  return environment.onto (asked.onto (project.onto (user.onto .standard)))

end SqlFormat.Config

import SqlFormat.CommandLine

/-!
# The program

Standard streams, the environment and the file system around `CommandLine.perform`: what a call can
see is read into a value, and what it comes to is printed and written.
-/

namespace SqlFormat.Main

/-- The bytes of a file that matter to a run: those of SQL files and of configuration files. -/
def isWanted (name : String) : Bool :=
  (Path.mk name).isSql || name.endsWith ".toml"

/-- Read a file or a directory. Hidden directories inside others are left empty, and so are files
that do not matter. -/
partial def readNode (path : String) : IO (Option Node) := do
  let real ← (IO.FS.realPath path).toBaseIO
  match real with
  | .error _ => return none
  | .ok real =>
    if ← real.isDir then
      let mut entries := Entries.nil
      for entry in (← real.readDir) do
        let name := entry.fileName
        if !name.startsWith "." then
          if let some node ← readNode (path ++ "/" ++ name) then
            entries := .cons name node entries
      return some (.directory entries)
    else if isWanted path then
      return some (.file (← IO.FS.readBinFile path).toList)
    else return some (.file [])

/-- Read what stands at a path into a tree, if anything does. -/
def addPath (tree : FileTree) (path : Path) : IO FileTree := do
  match ← readNode path.text with
  | some node => return { tree with root := tree.root.set node (tree.nominal path) }
  | none => return tree

/-- Make the directories on the way to a path. -/
def addDirectories (tree : FileTree) (path : Path) : IO FileTree := do
  let mut tree := tree
  for n in List.range path.segments.length do
    let directory : Path := ⟨String.intercalate "/" (path.segments.take n)⟩
    if let .ok real ← (IO.FS.realPath directory.text).toBaseIO then
      if ← real.isDir then tree := tree.putDirectory directory
  return tree

/-- Read the project files that a search can find. -/
def addProjectFiles (tree : FileTree) (inputs : List Path) : IO FileTree := do
  let mut tree := tree
  for directory in Config.searchDirectories tree inputs do
    for name in Config.projectFiles do
      tree ← addPath tree ((Path.ofComponents directory).join name)
  return tree

/-- The files that a call with these inputs can see. -/
def readTree (inputs : List Path) (config : Option Path) : IO FileTree := do
  let home := (Path.mk (← IO.currentDir).toString).segments.filter (· != "")
  let mut tree : FileTree := ⟨(Node.directory .nil).set (.directory .nil) home, home⟩
  for path in inputs ++ config.toList do
    tree ← addDirectories tree path
    tree ← addPath tree path
  addProjectFiles tree inputs

/-- The bytes of the user's configuration file. -/
def readUserFile : IO (Option (List UInt8)) := do
  let directory := match ← IO.getEnv "XDG_CONFIG_HOME", ← IO.getEnv "HOME" with
    | some directory, _ => some directory
    | none, some home => some (home ++ "/.config")
    | none, none => none
  match directory with
  | none => return none
  | some directory =>
    match ← (IO.FS.readBinFile (directory ++ "/sqlpretty/config.toml")).toBaseIO with
    | .ok bytes => return some bytes.toList
    | .error _ => return none

/-- The variables that matter to a run. -/
def readEnvironment : IO Layer.Environment := do
  let names := ["SQLPRETTY_DIALECT", "SQLPRETTY_KEYWORD_CASE", "SQLPRETTY_INDENT", "NO_COLOR"]
  names.filterMapM fun name => return (← IO.getEnv name).map (name, ·)

/-- All of a stream. -/
partial def readAll (stream : IO.FS.Stream) (sofar : ByteArray) : IO ByteArray := do
  let chunk ← stream.read 65536
  if chunk.isEmpty then return sofar else readAll stream (sofar ++ chunk)

/-- Write the files whose bytes have changed. -/
def writeChanges (old new : FileTree) : IO Unit := do
  let before := old.root.files []
  for (location, bytes) in new.root.files [] do
    if before.lookup location != some bytes then
      IO.FS.writeBinFile ("/" ++ String.intercalate "/" location) ⟨bytes.toArray⟩

/-- What a call with these arguments can see. -/
def readWorld (request : CommandLine.Request) : IO CommandLine.World := do
  let (inputs, config) : List Path × Option Path := match request with
    | .run o => (o.files.map (⟨·⟩), o.config.map (⟨·⟩))
    | _ => ([], none)
  let input ← if inputs = [⟨"-"⟩] then readAll (← IO.getStdin) .empty else pure .empty
  return {
    source := ⟨← readTree inputs config, ← readEnvironment, ← readUserFile⟩
    input := input.toList
    outputIsTerminal := ← (← IO.getStdout).isTty
    messagesAreTerminal := ← (← IO.getStderr).isTty }

end SqlFormat.Main

open SqlFormat in
/-- Format SQL files, or standard input. -/
def main (args : List String) : IO UInt32 := do
  let request := CommandLine.read args
  let world ← Main.readWorld request
  let result := CommandLine.perform world request
  Main.writeChanges world.source.tree result.tree
  IO.print result.output
  IO.eprint result.messages
  return result.code.toUInt32

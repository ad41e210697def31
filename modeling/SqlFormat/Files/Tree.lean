import SqlFormat.Error
import SqlFormat.Files.Path
import SqlFormat.Text.Utf8

/-!
# File trees

The files that a run can see, as a value: a tree of directories, and the directory that relative paths
start from.
-/

namespace SqlFormat

mutual

/-- A file or a directory. -/
inductive Node where
  | file (bytes : List UInt8)
  | directory (entries : Entries)

/-- The entries of a directory. -/
inductive Entries where
  | nil
  | cons (name : String) (node : Node) (rest : Entries)

end

namespace Entries

/-- The entry with a name. -/
def find? (name : String) : Entries → Option Node
  | nil => none
  | cons other node rest => if other = name then some node else find? name rest

/-- Put an entry in place of the one with the same name, or add it. -/
def set (name : String) (node : Node) : Entries → Entries
  | nil => cons name node nil
  | cons other old rest =>
    if other = name then cons name node rest else cons other old (set name node rest)

/-- Remove the entry with a name. -/
def erase (name : String) : Entries → Entries
  | nil => nil
  | cons other node rest => if other = name then rest else cons other node (erase name rest)

end Entries

namespace Node

/-- The entries of a directory; a file has none. -/
def entries : Node → Entries
  | file _ => .nil
  | directory entries => entries

/-- What stands at a location below a node. -/
def find? (node : Node) : List String → Option Node
  | [] => some node
  | name :: names =>
    match node with
    | file _ => none
    | directory entries => (entries.find? name).bind (·.find? names)

/-- Put a node at a location, making the directories on the way. -/
def set (node : Node) (new : Node) : List String → Node
  | [] => new
  | name :: names =>
    let child := (node.entries.find? name).getD (directory .nil)
    directory (node.entries.set name (child.set new names))

/-- Remove what stands at a location. -/
def erase (node : Node) : List String → Node
  | [] => node
  | [name] => directory (node.entries.erase name)
  | name :: names =>
    match node.entries.find? name with
    | some child => directory (node.entries.set name (child.erase names))
    | none => node

end Node

mutual

/-- The files below a node with their locations, which start with `location`. -/
def Node.files (location : List String) : Node → List (List String × List UInt8)
  | .file bytes => [(location, bytes)]
  | .directory entries => entries.files location

/-- The files among and below entries. -/
def Entries.files (location : List String) : Entries → List (List String × List UInt8)
  | .nil => []
  | .cons name node rest => node.files (location ++ [name]) ++ rest.files location

end

/-- The files that a run can see. -/
structure FileTree where
  root : Node
  /-- The location of the directory that relative paths start from. -/
  home : List String

namespace FileTree

/-- No files. -/
def empty : FileTree := ⟨.directory .nil, []⟩

/-- Go one piece of a path further from a directory. -/
def walkStep (root : Node) (location : List String) (segment : String) :
    Except FileFault (List String) :=
  match root.find? location with
  | none => .error .notFound
  | some (.file _) => .error .notDirectory
  | some (.directory entries) =>
    match segment with
    | "" | "." => .ok location
    | ".." => .ok location.dropLast
    | name => if (entries.find? name).isSome then .ok (location ++ [name]) else .error .notFound

/-- The location that a path leads to. -/
def locate (tree : FileTree) (path : Path) : Except FileFault (List String) :=
  if path.text.isEmpty then .error .notFound
  else path.segments.foldlM (walkStep tree.root) (if path.isAbsolute then [] else tree.home)

/-- What stands at the end of a path. -/
def node? (tree : FileTree) (path : Path) : Except FileFault Node := do
  let location ← tree.locate path
  match tree.root.find? location with
  | some node => .ok node
  | none => .error .notFound

/-- The path leads to a file. -/
def isFile (tree : FileTree) (path : Path) : Bool :=
  match tree.node? path with
  | .ok (.file _) => true
  | _ => false

/-- The path leads to a directory. -/
def isDirectory (tree : FileTree) (path : Path) : Bool :=
  match tree.node? path with
  | .ok (.directory _) => true
  | _ => false

/-- The path leads to something. -/
def pathExists (tree : FileTree) (path : Path) : Bool :=
  match tree.node? path with
  | .ok _ => true
  | .error _ => false

/-- The bytes of a file. -/
def bytes (tree : FileTree) (path : Path) : Except FileFault (List UInt8) := do
  match ← tree.node? path with
  | .file bytes => .ok bytes
  | .directory _ => .error .isDirectory

/-- The text of a file. -/
def read (tree : FileTree) (path : Path) : Except FileFault String := do
  match Text.decode? (← tree.bytes path) with
  | some text => .ok text
  | none => .error .notText

/-- Write to a file that exists. -/
def write (tree : FileTree) (path : Path) (text : String) : Except FileFault FileTree := do
  let location ← tree.locate path
  return { tree with root := tree.root.set (.file (Text.encode text)) location }

/-- The location that a path names, whether anything stands there or not. -/
def nominal (tree : FileTree) (path : Path) : List String :=
  path.segments.foldl
    (fun location segment =>
      match segment with
      | "" | "." => location
      | ".." => location.dropLast
      | name => location ++ [name])
    (if path.isAbsolute then [] else tree.home)

/-- Put a file at a path, making the directories on the way. -/
def putFile (tree : FileTree) (path : Path) (bytes : List UInt8) : FileTree :=
  { tree with root := tree.root.set (.file bytes) (tree.nominal path) }

/-- Put a directory at a path, if nothing stands there. -/
def putDirectory (tree : FileTree) (path : Path) : FileTree :=
  if tree.pathExists path then tree
  else { tree with root := tree.root.set (.directory .nil) (tree.nominal path) }

/-- Remove what stands at a path. -/
def remove (tree : FileTree) (path : Path) : FileTree :=
  { tree with root := tree.root.erase (tree.nominal path) }

/-- All files below the directory that relative paths start from, with their paths. -/
def files (tree : FileTree) : List (String × List UInt8) :=
  match tree.root.find? tree.home with
  | some node => (node.files []).map fun (location, bytes) =>
      (String.intercalate "/" location, bytes)
  | none => []

end FileTree

end SqlFormat

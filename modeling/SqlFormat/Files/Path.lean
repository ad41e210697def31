import SqlFormat.Text.Blank
import SqlFormat.Text.Case

/-!
# Paths

A path is kept as it was written, because that is how it is shown. Two paths are compared by their
components: repeated slashes and single dots inside a path do not count, but a dot at its beginning
does.
-/

namespace SqlFormat

/-- A path as it was written. -/
structure Path where
  text : String
deriving DecidableEq, Repr

namespace Path

/-- A part of a path. -/
inductive Component where
  | root
  | current
  | parent
  | normal (name : String)
deriving DecidableEq, Repr

/-- The place of a form of component among the others. -/
def Component.rank : Component → Nat
  | .root => 0
  | .current => 1
  | .parent => 2
  | .normal _ => 3

/-- Components are ordered by form, and names by their characters. -/
def Component.order : Component → Component → Ordering
  | .normal a, .normal b => compare a b
  | a, b => compare a.rank b.rank

/-- The pieces between slashes. -/
def segments (path : Path) : List String :=
  (Text.splitOn '/' path.text.toList).map String.ofList

/-- The path starts at the root. -/
def isAbsolute (path : Path) : Bool :=
  path.text.toList.head? == some '/'

/-- The component that a piece stands for, unless it does not count. -/
def component? : String → Option Component
  | "" | "." => none
  | ".." => some .parent
  | name => some (.normal name)

/-- The components of a path. -/
def components (path : Path) : List Component :=
  let first : List Component :=
    if path.isAbsolute then [.root]
    else if path.segments.head? == some "." then [.current]
    else []
  first ++ path.segments.filterMap component?

/-- The order of two lists of components: by the first that differ, and a beginning before the
whole. -/
def orderComponents : List Component → List Component → Ordering
  | [], [] => .eq
  | [], _ :: _ => .lt
  | _ :: _, [] => .gt
  | a :: as, b :: bs => (a.order b).then (orderComponents as bs)

/-- The order of paths. -/
def order (a b : Path) : Ordering :=
  orderComponents a.components b.components

/-- The path of an entry of a directory. -/
def join (directory : Path) (name : String) : Path :=
  let text := directory.text
  if text.isEmpty then ⟨name⟩
  else if text.toList.getLast? == some '/' then ⟨text ++ name⟩
  else ⟨text ++ "/" ++ name⟩

/-- The name of the file, if the path ends with a name. -/
def fileName? (path : Path) : Option String :=
  match path.components.getLast? with
  | some (.normal name) => some name
  | _ => none

/-- What follows the last dot of a file name. A dot in front makes a name and no extension. -/
def extension? (path : Path) : Option String := do
  let name ← path.fileName?
  let reversed := name.toList.reverse
  let extension := reversed.takeWhile (· != '.')
  match reversed.drop extension.length with
  | '.' :: _ :: _ => some (String.ofList extension.reverse)
  | _ => none

/-- The extensions of SQL files. -/
def sqlExtensions : List String := ["sql", "ddl", "dml", "pgsql", "plsql"]

/-- The path has the extension of an SQL file, in any case of letters. -/
def isSql (path : Path) : Bool :=
  path.extension?.any fun extension => sqlExtensions.contains (Text.lower extension)

/-- A path written by its components. -/
def ofComponents (components : List Component) : Path :=
  let word : Component → String
    | .root => ""
    | .current => "."
    | .parent => ".."
    | .normal name => name
  if components = [.root] then ⟨"/"⟩ else ⟨String.intercalate "/" (components.map word)⟩

/-- The directories on the way up from components, nearest first, themselves included. The way ends
at the root, or with no component left. -/
def ancestors (components : List Component) : List (List Component) :=
  let least := if components.head? = some .root then 1 else 0
  (List.range (components.length + 1 - least)).map fun n =>
    components.take (components.length - n)

end Path

end SqlFormat

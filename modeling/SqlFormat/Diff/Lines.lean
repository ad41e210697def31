import SqlFormat.Diff.Script

/-!
# Differences of texts by lines

Lines are compared with their line breaks. The changes between two kept lines are shown with all
deleted lines first.
-/

namespace SqlFormat.Diff

/-- The lines of a text with their line breaks, where `line` is what has been read of the current
one. A line ends after a line feed, a carriage return, or both. -/
def linesFrom (line : List Char) : List Char → List (List Char)
  | [] => if line.isEmpty then [] else [line]
  | '\r' :: '\n' :: cs => (line ++ ['\r', '\n']) :: linesFrom [] cs
  | c :: cs =>
    if c == '\n' || c == '\r' then (line ++ [c]) :: linesFrom [] cs
    else linesFrom (line ++ [c]) cs

/-- The lines of a text with their line breaks. -/
def splitLines (s : String) : List String :=
  (linesFrom [] s.toList).map String.ofList

/-- Changes since the last kept line. -/
structure Pending where
  deleted : List String
  inserted : List String

/-- The changes, deleted lines first. -/
def Pending.flush (p : Pending) : List (Tag × String) :=
  p.deleted.map (.delete, ·) ++ p.inserted.map (.insert, ·)

/-- The lines of a script, with deleted lines before inserted ones between two kept lines. -/
def ordered (pending : Pending) : List (Hunk String) → List (Tag × String)
  | [] => pending.flush
  | hunk :: hunks =>
    match hunk.tag with
    | .delete => ordered { pending with deleted := pending.deleted ++ hunk.items } hunks
    | .insert => ordered { pending with inserted := pending.inserted ++ hunk.items } hunks
    | .keep => pending.flush ++ hunk.items.map (.keep, ·) ++ ordered ⟨[], []⟩ hunks

/-- The lines of two texts: those in both, those only in the old, and those only in the new. -/
def changes (old new : List String) : List (Tag × String) :=
  ordered ⟨[], []⟩ (script old new)

end SqlFormat.Diff

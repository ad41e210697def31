/-!
# Glob patterns

Patterns with `?` for a character, `*` for any characters, `[…]` for a choice of characters, and `**`
for any number of whole directories. A slash is a character like any other to all but the last.
-/

namespace SqlFormat

/-- One character of a choice, or a range of characters. -/
inductive CharChoice where
  | single (c : Char)
  | range (first last : Char)
deriving DecidableEq, Repr

/-- The choice holds a character. -/
def CharChoice.holds (c : Char) : CharChoice → Bool
  | single d => c == d
  | range first last => first ≤ c && c ≤ last

/-- A part of a pattern. -/
inductive GlobPart where
  | char (c : Char)
  | anyChar
  /-- Any characters. -/
  | anyText
  /-- Any directories, each with its slash. At the end of a pattern it is any characters. -/
  | anyDirectories
  | within (choices : List CharChoice)
  | except (choices : List CharChoice)
deriving DecidableEq, Repr

/-- A pattern. -/
structure Glob where
  parts : List GlobPart
deriving DecidableEq, Repr

namespace Glob

/-! ## Reading patterns -/

/-- The choices between brackets. -/
def choices : List Char → List CharChoice
  | [] => []
  | first :: '-' :: last :: cs => .range first last :: choices cs
  | c :: cs => .single c :: choices cs

/-- The choices up to the closing bracket, which is not the first character, and the rest. -/
def bracket? : List Char → Option (List CharChoice × List Char)
  | [] => none
  | first :: cs =>
    let more := cs.takeWhile (· != ']')
    match cs.drop more.length with
    | ']' :: rest => some (choices (first :: more), rest)
    | _ => none

/-- A part of a choice. An exclamation mark turns it around. -/
def choicePart? : List Char → Option (GlobPart × List Char)
  | '!' :: cs => (bracket? cs).map fun (cs, rest) => (.except cs, rest)
  | cs => (bracket? cs).map fun (cs, rest) => (.within cs, rest)

/-- Add the part for `**`. Of several in a row one is enough, except at the beginning. -/
def addDirectories (parts : List GlobPart) : List GlobPart :=
  if 1 < parts.length && parts.getLast? == some .anyDirectories then parts
  else parts ++ [.anyDirectories]

/-- Read a pattern after `parts`. `**` must be a whole component, so `atStart` says whether a
component starts here. -/
def parseFrom? (parts : List GlobPart) (atStart : Bool) (cs : List Char) : Option (List GlobPart) :=
  match cs with
  | [] => some parts
  | '?' :: rest => parseFrom? (parts ++ [.anyChar]) false rest
  | '*' :: '*' :: rest =>
    if atStart then
      match rest with
      | [] => some (addDirectories parts)
      | '/' :: rest => parseFrom? (addDirectories parts) true rest
      | _ => none
    else none
  | '*' :: rest => parseFrom? (parts ++ [.anyText]) false rest
  | '[' :: rest =>
    match choicePart? rest with
    | some (part, left) =>
      if left.length ≤ rest.length then parseFrom? (parts ++ [part]) false left else none
    | none => none
  | c :: rest => parseFrom? (parts ++ [.char c]) (c == '/') rest
termination_by cs.length

/-- Read a pattern. -/
def parse? (s : String) : Option Glob :=
  (parseFrom? [] true s.toList).map (⟨·⟩)

/-! ## Matching -/

/-- What comes of matching a part of a text: success, failure here, or failure that taking more
of the text before cannot mend. -/
inductive Outcome where
  | success
  | failure
  | hopeless
deriving DecidableEq, Repr

/-- Try the rest of the pattern after more and more of the text; `**` stops only after slashes. -/
def tryAfter (wholeDirectories : Bool) (next : List Char → Outcome) : List Char → Outcome
  | [] => next []
  | c :: cs =>
    if wholeDirectories && c != '/' then tryAfter wholeDirectories next cs
    else match next cs with
      | .failure => tryAfter wholeDirectories next cs
      | outcome => outcome

/-- Take one character that satisfies `p`. -/
def takeOne (p : Char → Bool) (next : List Char → Outcome) : List Char → Outcome
  | [] => .hopeless
  | c :: cs => if p c then next cs else .failure

/-- Match parts against a text. -/
def matchParts : List GlobPart → List Char → Outcome
  | [], cs => if cs.isEmpty then .success else .failure
  | part :: parts, cs =>
    match part with
    | .char c => takeOne (· == c) (matchParts parts) cs
    | .anyChar => takeOne (fun _ => true) (matchParts parts) cs
    | .within choices => takeOne (fun c => choices.any (·.holds c)) (matchParts parts) cs
    | .except choices => takeOne (fun c => !choices.any (·.holds c)) (matchParts parts) cs
    | .anyText =>
      match matchParts parts cs with
      | .failure => tryAfter false (matchParts parts) cs
      | outcome => outcome
    | .anyDirectories =>
      match matchParts parts cs with
      | .failure => tryAfter true (matchParts parts) cs
      | outcome => outcome

/-- The pattern matches a text. -/
def accepts (glob : Glob) (s : String) : Bool :=
  matchParts glob.parts s.toList == .success

end Glob

end SqlFormat

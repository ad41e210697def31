import SqlFormat.Token

/-!
# Colour

Text is coloured for terminals by control sequences around it: a reset, the attributes, the text,
and a reset again. Removing the sequences gives the text back.
-/

namespace SqlFormat

/-- When output is coloured. -/
inductive ColorPolicy where
  | never
  | always
  /-- Only on a terminal, and if the environment does not forbid it. -/
  | auto
deriving DecidableEq, Repr

namespace ColorPolicy

/-- The name of a policy. -/
def name : ColorPolicy → String
  | never => "never"
  | always => "always"
  | auto => "auto"

/-- The policy for a given output: `noColor` if the environment forbids colour. -/
def resolve (policy : ColorPolicy) (isTerminal noColor : Bool) : ColorPolicy :=
  match policy with
  | auto => if isTerminal && !noColor then always else never
  | other => other

end ColorPolicy

namespace Ansi

/-- The control sequence with a number. -/
def sequence (code : String) : String := "\x1b[" ++ code ++ "m"

def reset : String := sequence "0"

def bold : String := sequence "1"

def dimmed : String := sequence "2"

def red : String := sequence "31"

def green : String := sequence "32"

def yellow : String := sequence "33"

def blue : String := sequence "34"

def magenta : String := sequence "35"

/-- The text with attributes, between two resets. -/
def paint (attributes text : String) : String :=
  reset ++ attributes ++ text ++ reset

/-- The attributes of a kind of token, if it is coloured. -/
def attributes? (kind : TokenKind) : Option String :=
  if kind.isReserved then some (bold ++ blue)
  else if kind.isComment then some dimmed
  else if kind.isPlaceholder then some yellow
  else match kind with
    | .string => some green
    | .number => some magenta
    | _ => none

/-- The text of a token in its colour. -/
def decorate (kind : TokenKind) (text : String) : String :=
  match attributes? kind with
  | some attributes => paint attributes text
  | none => text

/-- The text after a control sequence, which ends with a letter. -/
def afterSequence : List Char → List Char
  | [] => []
  | c :: cs => if c.isAlpha then cs else afterSequence cs

/-- Skipping a control sequence makes the text no longer. -/
theorem length_afterSequence_le (cs : List Char) : (afterSequence cs).length ≤ cs.length := by
  induction cs with
  | nil => simp [afterSequence]
  | cons c cs ih =>
    simp only [afterSequence]
    split
    · simp
    · simp only [List.length_cons]
      omega

/-- The visible characters. An escape character takes the next character with it, and a bracket
after it everything up to a letter. -/
def visible : List Char → List Char
  | [] => []
  | c :: cs =>
    if c != '\x1b' then c :: visible cs
    else match cs with
      | [] => []
      | d :: ds => if d == '[' then visible (afterSequence ds) else visible ds
termination_by cs => cs.length
decreasing_by
  · simp
  · have := length_afterSequence_le ds
    simp only [List.length_cons]
    omega
  · simp only [List.length_cons]
    omega

/-- The text without control sequences. -/
def strip (s : String) : String :=
  String.ofList (visible s.toList)

end Ansi

end SqlFormat

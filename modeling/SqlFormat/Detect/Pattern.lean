import SqlFormat.Text.Blank
import SqlFormat.Text.WordRanges

/-!
# Patterns

The patterns by which dialects are told apart: characters and runs of characters of a class, options,
and word boundaries. A pattern is matched by listing the ends of all its matches at a place. A place
is the character before it and the text after it.
-/

namespace SqlFormat.Detect

/-- A pattern. -/
inductive Pattern where
  /-- One character of a class. -/
  | one (p : Char → Bool)
  /-- Any number of characters of a class. -/
  | many (p : Char → Bool)
  /-- The edge of a word. -/
  | boundary
  | seq (first second : Pattern)
  | opt (pattern : Pattern)
  | either (first second : Pattern)

/-- A place in a text. -/
structure Place where
  before : Option Char
  after : List Char

/-- The character belongs to a word. -/
def isWord (c : Char) : Bool :=
  Text.wordRanges.contains c

/-- The character is a decimal digit of some script. -/
def isDigit (c : Char) : Bool :=
  Text.digitRanges.contains c

/-- A place is at the edge of a word. -/
def Place.atBoundary (place : Place) : Bool :=
  place.before.any isWord != place.after.head?.any isWord

/-- The places after a run of characters of a class, longest run first. -/
def Place.runs (p : Char → Bool) (before : Option Char) : List Char → List Place
  | [] => [⟨before, []⟩]
  | c :: cs =>
    if p c then Place.runs p (some c) cs ++ [⟨before, c :: cs⟩] else [⟨before, c :: cs⟩]

/-- The ends of the matches at a place, longer choices first. -/
def Pattern.ends (place : Place) : Pattern → List Place
  | one p =>
    match place.after with
    | c :: cs => if p c then [⟨some c, cs⟩] else []
    | [] => []
  | many p => Place.runs p place.before place.after
  | boundary => if place.atBoundary then [place] else []
  | seq first second => (first.ends place).flatMap fun middle => second.ends middle
  | opt pattern => pattern.ends place ++ [place]
  | either first second => first.ends place ++ second.ends place

/-- The end of the first match in a text: the leftmost, and there the one with the longest
choices. -/
def Pattern.firstEnd? (pattern : Pattern) (before : Option Char) : List Char → Option Place
  | [] => (pattern.ends ⟨before, []⟩).head?
  | c :: cs =>
    match pattern.ends ⟨before, c :: cs⟩ with
    | found :: _ => some found
    | [] => pattern.firstEnd? (some c) cs

/-- The pattern occurs in a text. -/
def Pattern.occursIn (pattern : Pattern) (text : List Char) : Bool :=
  (pattern.firstEnd? none text).isSome

namespace Pattern

/-- Patterns one after the other. -/
def all : List Pattern → Pattern
  | [] => many fun _ => false
  | [p] => p
  | p :: ps => seq p (all ps)

/-- This character. -/
def char (c : Char) : Pattern := one (· == c)

/-- These characters. -/
def exactly (s : String) : Pattern := all (s.toList.map char)

/-- The character is a letter in either case. Two characters outside ASCII are cases of ASCII
letters: the long s, and the sign of the kelvin. -/
def sameLetter (letter c : Char) : Bool :=
  c.toLower == letter.toLower ||
    (c == 'ſ' && letter.toLower == 's') || (c == '\u212A' && letter.toLower == 'k')

/-- These characters with letters in either case. -/
def letters (s : String) : Pattern := all (s.toList.map fun c => one (sameLetter c))

/-- Any white space. -/
def space : Pattern := many Text.isWhite

/-- White space. -/
def space₁ : Pattern := seq (one Text.isWhite) space

/-- Digits. -/
def digits₁ : Pattern := seq (one isDigit) (many isDigit)

/-- Words separated by white space, between edges of words. -/
def phrase (words : List String) : Pattern :=
  all [boundary, all ((words.map letters).intersperse space₁), boundary]

/-- An ASCII letter or an underscore. -/
def nameStart : Pattern := one fun c => c.isAlpha || c == '_'

end Pattern

end SqlFormat.Detect

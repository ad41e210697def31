import SqlFormat.Text.CaseTable
import SqlFormat.Text.CasedRanges

/-!
# Upper and lower case

Texts are mapped character by character, and one character may become several. The one rule that
looks at neighbours is for the capital sigma, which has a form of its own at the end of a word.
-/

namespace SqlFormat.Text

/-- The text in upper case. -/
def upper (s : String) : String :=
  String.ofList (s.toList.flatMap (mapCase upperSpecial upperRuns))

/-- Past the characters that case ignores, a cased character follows. -/
def casedFollows (cs : List Char) : Bool :=
  ((cs.dropWhile caseIgnorableRanges.contains).head?).any casedRanges.contains

/-- The lower-case form of a character between what stands before it, nearest first, and what
stands after it. -/
def lowerAt (before : List Char) (c : Char) (after : List Char) : List Char :=
  if c == 'Σ' then
    if casedFollows before && !casedFollows after then ['ς'] else ['σ']
  else mapCase lowerSpecial lowerRuns c

/-- The lower-case form of a text after what stands before it, nearest first. -/
def lowerFrom (before : List Char) : List Char → List Char
  | [] => []
  | c :: cs => lowerAt before c cs ++ lowerFrom (c :: before) cs

/-- The text in lower case. -/
def lower (s : String) : String :=
  String.ofList (lowerFrom [] s.toList)

end SqlFormat.Text

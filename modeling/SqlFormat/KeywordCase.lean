import SqlFormat.Text.Blank
import SqlFormat.Text.Case

/-!
# The case of keywords
-/

namespace SqlFormat

/-- How keywords are written. -/
inductive KeywordCase where
  | preserve
  | upper
  | lower
  /-- As the dialect prefers. -/
  | dialect
deriving DecidableEq, Repr

namespace KeywordCase

/-- The name of a case. -/
def name : KeywordCase → String
  | preserve => "preserve"
  | upper => "upper"
  | lower => "lower"
  | dialect => "dialect"

/-- The case with a given name, in any case of letters. -/
def ofName? (s : String) : Option KeywordCase :=
  match Text.lowerAscii s with
  | "preserve" => some preserve
  | "upper" => some upper
  | "lower" => some lower
  | "dialect" | "default" => some dialect
  | _ => none

/-- The text written in this case. What the dialect prefers is settled elsewhere, so `dialect`
changes nothing. -/
def apply (c : KeywordCase) (s : String) : String :=
  match c with
  | upper => Text.upper s
  | lower => Text.lower s
  | preserve | dialect => s

end KeywordCase

end SqlFormat

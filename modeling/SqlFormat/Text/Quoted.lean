import SqlFormat.Text.VisibleRanges

/-!
# Quoted values

Values in messages stand between double quotes. The quote and the backslash have a backslash before
them, four controls have short names, and any other character that is not visible is written as its
code in hexadecimal.
-/

namespace SqlFormat.Text

/-- The code of a character in hexadecimal. -/
def hexCode (c : Char) : String :=
  String.ofList (Nat.toDigits 16 c.toNat)

/-- A character inside quotes. -/
def quotedChar (c : Char) : String :=
  match c with
  | '\x00' => "\\0"
  | '\t' => "\\t"
  | '\n' => "\\n"
  | '\r' => "\\r"
  | '\\' => "\\\\"
  | '\x22' => "\\\""
  | _ =>
    if visibleRanges.contains c then c.toString else "\\u\x7b" ++ hexCode c ++ "\x7d"

/-- A value between quotes. -/
def quoted (s : String) : String :=
  "\"" ++ String.join (s.toList.map quotedChar) ++ "\""

end SqlFormat.Text

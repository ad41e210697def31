import SqlFormat.Token.Lexer

/-!
# Tokens that run together

Two tokens written without a space between them may be read back as others: `1` and `.` make the
number `1.`, and `-` and `-` a line comment.
-/

namespace SqlFormat

/-- Written without a space, the first token would be read back as another one. -/
def wouldMerge (lexicon : Lexicon) (first second : Token) : Bool :=
  let joined := first.text.toList ++ second.text.toList
  let length := first.text.length
  match first.kind with
  | .number => Scan.number joined != length
  | .operator =>
    let compound := Scan.compoundOperator joined
    lexicon.startsLineComment joined || Scan.startsBlockComment joined ||
      (compound != 0 && compound != length) ||
      (first.text == "." && second.text.toList.head?.any Char.isDigit)
  | _ => false

end SqlFormat

import SqlFormat.Lexicon

/-!
# Scanning

How far a word, a number, a string, a comment or an operator reaches from the head of a text. Every
function gives a number of characters. Whatever a construct leaves open runs to the end of the text.
-/

namespace SqlFormat.Scan

open Text

/-! ## Words -/

/-- Letters, digits, `_` and everything outside ASCII. -/
def isWordChar (c : Char) : Bool :=
  c.isAlphanum || c == '_' || 0x80 ≤ c.toNat

/-- What a word may start with: the characters of words other than digits. -/
def isWordStart (c : Char) : Bool :=
  c.isAlpha || c == '_' || 0x80 ≤ c.toNat

/-- The length of the word at the head of the text, 0 if there is none. After the first character
a word may also hold `$`. -/
def word : List Char → Nat
  | [] => 0
  | c :: cs =>
    if isWordChar c then 1 + (cs.takeWhile fun d => isWordChar d || d == '$').length else 0

/-- The length of the run of blanks at the head of the text. -/
def blanks (cs : List Char) : Nat :=
  (cs.takeWhile isBlank).length

/-- The word that follows, past blanks, in lower case. -/
def nextWord? (cs : List Char) : Option String :=
  let rest := cs.dropWhile isBlank
  let n := word rest
  if n = 0 then none else some (lowerAscii (String.ofList (rest.take n)))

/-! ## Numbers -/

/-- The length of the run of digits and underscores at the head of the text. -/
def digits (cs : List Char) : Nat :=
  (cs.takeWhile fun c => c.isDigit || c == '_').length

/-- The digits that may follow `0x`, `0b` and `0o`. -/
def isRadixDigit (radix : Char) (c : Char) : Bool :=
  match radix with
  | 'x' | 'X' => c.isDigit || ('a' ≤ c && c ≤ 'f') || ('A' ≤ c && c ≤ 'F')
  | 'b' | 'B' => c == '0' || c == '1'
  | 'o' | 'O' => '0' ≤ c && c ≤ '7'
  | _ => false

/-- The length of a number with a radix. -/
def radixNumber? : List Char → Option Nat
  | '0' :: radix :: d :: cs =>
    if isRadixDigit radix d then
      some (3 + (cs.takeWhile fun c => isRadixDigit radix c || c == '_').length)
    else none
  | _ => none

/-- The length of a fractional part. Two dots are a range and no fraction. -/
def fraction : List Char → Nat
  | '.' :: '.' :: _ => 0
  | '.' :: cs => 1 + digits cs
  | _ => 0

/-- The length of an exponent, which has at least one digit. -/
def exponent : List Char → Nat
  | [] => 0
  | e :: cs =>
    if e == 'e' || e == 'E' then
      let sign := if cs.head?.any fun c => c == '+' || c == '-' then 1 else 0
      let rest := cs.drop sign
      if rest.head?.any Char.isDigit then 1 + sign + digits rest else 0
    else 0

/-- The length of a number without a radix. -/
def decimal (cs : List Char) : Nat :=
  let whole := digits cs
  let mantissa := whole + fraction (cs.drop whole)
  mantissa + exponent (cs.drop mantissa)

/-- The length of the number at the head of the text. -/
def number (cs : List Char) : Nat :=
  (radixNumber? cs).getD (decimal cs)

/-! ## Strings -/

/-- The length of a string after its opening delimiter: up to the first closing delimiter that is
neither doubled nor taken by a backslash. -/
def stringBody (style : StringStyle) : List Char → Nat
  | [] => 0
  | [_] => 1
  | c :: d :: cs =>
    if style.backslash && c == '\\' then 2 + stringBody style cs
    else if c == style.closing then
      if d == style.closing then 2 + stringBody style cs else 1
    else 1 + stringBody style (d :: cs)

/-- The length of the string at the head of the text, both delimiters included. -/
def string (style : StringStyle) (cs : List Char) : Nat :=
  1 + stringBody style (cs.drop 1)

/-- The length of the text up to the end of the first occurrence of a pattern, or all of it. -/
def through (pattern : List Char) : List Char → Nat
  | [] => 0
  | c :: cs => if pattern.isPrefixOf (c :: cs) then pattern.length else 1 + through pattern cs

/-- The tag that opens a dollar-quoted string, with its two dollar signs. A digit after the first
dollar sign makes a placeholder and no tag. -/
def dollarTag? : List Char → Option (List Char)
  | '$' :: cs =>
    let name := cs.takeWhile fun c => c.isAlphanum || c == '_'
    if (cs.drop name.length).head? == some '$' && !name.head?.any Char.isDigit then
      some ('$' :: name ++ ['$'])
    else none
  | _ => none

/-- The length of the dollar-quoted string at the head of the text. -/
def dollarString? (cs : List Char) : Option Nat :=
  (dollarTag? cs).map fun tag => tag.length + through tag (cs.drop tag.length)

/-! ## Comments -/

/-- The length of a line comment, the line feed not included. -/
def lineComment (cs : List Char) : Nat :=
  (cs.takeWhile (· != '\n')).length

/-- A block comment starts at the head of the text. -/
def startsBlockComment (cs : List Char) : Bool :=
  ['/', '*'].isPrefixOf cs

/-- The length of a block comment, both delimiters included. -/
def blockComment (cs : List Char) : Nat :=
  2 + through ['*', '/'] (cs.drop 2)

/-! ## Operators -/

/-- Operators of three characters. -/
def tripleOperators : List String :=
  ["!~*", "#>>", "->>", "-|-", "<#>", "<->", "<<=", "<=>", "@-@", "||/"]

/-- Operators of two characters. -/
def doubleOperators : List String :=
  ["!=", "!~", "#-", "#>", "%%", "&&", "&<", "&>", "**", "->", "..", "::", ":=", "<<", "<=", "<>",
   "<@", "==", "=>", ">=", ">>", "?&", "?|", "@>", "@@", "|/", "||", "~*", "~=", "~~"]

/-- The length of the longest operator of several characters at the head of the text, 0 if there is
none. -/
def compoundOperator (cs : List Char) : Nat :=
  if tripleOperators.any (·.toList.isPrefixOf cs) then 3
  else if doubleOperators.any (·.toList.isPrefixOf cs) then 2
  else 0

end SqlFormat.Scan

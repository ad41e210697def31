/-!
# Blanks and white space

Two sets of characters count as empty space. *Blanks* are the five ASCII characters that separate
tokens. *White space* is the larger set of the Unicode property `White_Space`; it is what trimming
removes. Every blank is white space, and the two agree on no line break but the line feed and the
carriage return.

Results: `isBlank_imp_isWhite`.
-/

namespace SqlFormat.Text

/-- The blanks that separate tokens: space, tab, line feed, form feed and carriage return. -/
def isBlank (c : Char) : Bool :=
  c == ' ' || c == '\t' || c == '\n' || c == '\x0c' || c == '\r'

/-- The characters with the property `White_Space`. -/
def isWhite (c : Char) : Bool :=
  let n := c.toNat
  (0x09 ≤ n && n ≤ 0x0d) || n == 0x20 || n == 0x85 || n == 0xa0 || n == 0x1680 ||
    (0x2000 ≤ n && n ≤ 0x200a) || n == 0x2028 || n == 0x2029 || n == 0x202f || n == 0x205f ||
    n == 0x3000

/-- Every blank is white space. -/
theorem isBlank_imp_isWhite {c : Char} (h : isBlank c = true) : isWhite c = true := by
  simp only [isBlank, Bool.or_eq_true, beq_iff_eq] at h
  rcases h with (((h | h) | h) | h) | h <;> subst h <;> decide

/-! ## Trimming -/

/-- The text without the trailing characters that satisfy `p`. -/
def dropWhileEnd (p : Char → Bool) (cs : List Char) : List Char :=
  (cs.reverse.dropWhile p).reverse

/-- The text without its trailing white space. -/
def trimEnd (s : String) : String :=
  String.ofList (dropWhileEnd isWhite s.toList)

/-- The text without its leading and trailing white space. -/
def trim (s : String) : String :=
  String.ofList (dropWhileEnd isWhite (s.toList.dropWhile isWhite))

/-! ## Splitting and joining -/

/-- The pieces of the text between the occurrences of `sep`; there is always at least one. -/
def splitOn (sep : Char) : List Char → List (List Char)
  | [] => [[]]
  | c :: cs =>
    if c = sep then [] :: splitOn sep cs
    else match splitOn sep cs with
      | [] => [[c]]
      | piece :: pieces => (c :: piece) :: pieces

/-- The blank-separated words of a text, where `word` is what has been read of the current one. -/
def wordsFrom (word : List Char) : List Char → List (List Char)
  | [] => if word.isEmpty then [] else [word]
  | c :: cs =>
    if isBlank c then
      if word.isEmpty then wordsFrom [] cs else word :: wordsFrom [] cs
    else wordsFrom (word ++ [c]) cs

/-- The blank-separated words of a text. -/
def words (cs : List Char) : List (List Char) :=
  wordsFrom [] cs

/-- The text with `A` to `Z` replaced by `a` to `z`. -/
def lowerAscii (s : String) : String :=
  String.ofList (s.toList.map Char.toLower)

/-- Texts joined by a separator. -/
def joinWith (sep : String) (parts : List String) : String :=
  String.intercalate sep parts

/-- The number of bytes of a text in UTF-8. -/
def byteLength : List Char → Nat
  | [] => 0
  | c :: cs => c.utf8Size + byteLength cs

end SqlFormat.Text

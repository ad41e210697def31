import SqlFormat.Error
import SqlFormat.Text.Case
import SqlFormat.Token.Lexer

/-!
# Equivalence of texts

Two texts are equivalent if they have the same tokens other than white space, up to letter case and
the amount of white space inside tokens. Inside block comments no white space counts at all.
-/

namespace SqlFormat.Equivalence

open Text

/-- The words of a text, separated by white space, where `word` is what has been read of the
current one. -/
def whiteWordsFrom (word : List Char) : List Char → List (List Char)
  | [] => if word.isEmpty then [] else [word]
  | c :: cs =>
    if isWhite c then
      if word.isEmpty then whiteWordsFrom [] cs else word :: whiteWordsFrom [] cs
    else whiteWordsFrom (word ++ [c]) cs

/-- The form in which the text of a token is compared. -/
def key (token : Token) : List Char :=
  let words := whiteWordsFrom [] (lower token.text).toList
  if token.kind == .blockComment then words.flatten else List.intercalate [' '] words

/-- The first difference of two token sequences of which the first tokens have position `i`. -/
def firstMismatch? (i : Nat) : List Token → List Token → Option Mismatch
  | a :: as, b :: bs =>
    if a.kind ≠ b.kind then some (.kind i a b)
    else if key a ≠ key b then some (.text i a b)
    else firstMismatch? (i + 1) as bs
  | _, _ => none

/-- The tokens of a text other than white space. -/
def significant (lexicon : Lexicon) (text : String) : List Token :=
  (tokenize lexicon text).filter (·.kind != .whitespace)

/-- How a formatted text differs from its source, if it does. -/
def mismatch? (lexicon : Lexicon) (source formatted : String) : Option Mismatch :=
  let before := significant lexicon source
  let after := significant lexicon formatted
  if before.length ≠ after.length then some (.count before.length after.length)
  else firstMismatch? 0 before after

end SqlFormat.Equivalence

import SqlFormat.Token

/-!
# Lexicons

A lexicon is what the lexer and the layout know about the words and delimiters of a dialect:
tables of keyword phrases, block openers with the phrases that close them, string and comment
delimiters, and the spelling of placeholders. Phrases stand in the tables in lower case with one
space between words. Tables come in layers, those that all dialects share first.
-/

namespace SqlFormat

/-- What an opener opens. -/
inductive BlockContext where
  | paren
  | case
  | procedural
deriving DecidableEq, Repr

namespace BlockContext

/-- The name of a context. -/
def name : BlockContext → String
  | paren => "Paren"
  | case => "Case"
  | procedural => "ProceduralBlock"

end BlockContext

/-- How an opener behaves. -/
structure Opener where
  context : BlockContext
  /-- The keyword that ends the header of the block (`IF … THEN`), if it has a header. -/
  headerEnd : Option String
deriving DecidableEq, Repr

/-- A pair of string delimiters. A closing delimiter written twice stands for itself. -/
structure StringStyle where
  opening : Char
  closing : Char
  /-- A backslash takes the next character with it. -/
  backslash : Bool
deriving DecidableEq, Repr

namespace StringStyle

/-- The same delimiter on both sides, and no backslash escapes. -/
def quoted (quote : Char) : StringStyle := ⟨quote, quote, false⟩

/-- The same delimiter on both sides, with backslash escapes. -/
def escaped (quote : Char) : StringStyle := ⟨quote, quote, true⟩

end StringStyle

/-- How placeholders are written. -/
structure PlaceholderSyntax where
  /-- What stands before the number of an indexed placeholder. A `?` among them also stands
  alone. -/
  indexed : List Char
  /-- What stands before the name of a named placeholder. -/
  named : List Char
  /-- The number of the first parameter. -/
  base : Nat
deriving DecidableEq, Repr

/-- The words and delimiters of a dialect. -/
structure Lexicon where
  name : String
  topLevel : List (List String)
  topLevelNoIndent : List (List String)
  newline : List (List String)
  reserved : List (List String)
  /-- The words that open a block. -/
  openers : List (String × Opener)
  /-- The phrases that close a block, each with the openers that it closes. -/
  closers : List (String × List String)
  /-- The keywords that divide a procedural block into sections. -/
  blockSections : List String
  strings : List StringStyle
  /-- The letters that may stand before `'`, and whether the literal then has backslash
  escapes. -/
  prefixedStrings : List (Char × Bool)
  /-- Whether `$tag$ … $tag$` is a string. -/
  dollarQuotes : Bool
  /-- Whether `[` and `]` are brackets. -/
  bracketParens : Bool
  lineComments : List String
  placeholders : PlaceholderSyntax
  /-- What stands before the name of a session variable. -/
  variablePrefixes : List Char

namespace Lexicon

/-- The most words of a keyword phrase. -/
def maxPhraseWords : Nat := 4

/-- The phrase stands in one of the layers. -/
def inLayers (layers : List (List String)) (key : String) : Bool :=
  layers.any (·.contains key)

/-- The kind of a phrase given by its key. Closers come first, so that `end if` is never read as
`end`, and an opener that is also a plain keyword is an opener. -/
def classify (lexicon : Lexicon) (key : String) : Option TokenKind :=
  if (lexicon.closers.lookup key).isSome then some .closeParen
  else if inLayers lexicon.topLevel key then some .reservedTopLevel
  else if inLayers lexicon.topLevelNoIndent key then some .reservedTopLevelNoIndent
  else if inLayers lexicon.newline key then some .reservedNewline
  else if (lexicon.openers.lookup key).isSome then some .openParen
  else if inLayers lexicon.reserved key then some .reserved
  else none

/-- How the opener with this key behaves, brackets included. -/
def opener? (lexicon : Lexicon) (key : String) : Option Opener :=
  if key == "(" || key == "[" then some ⟨.paren, none⟩ else lexicon.openers.lookup key

/-- Whether a closer closes what an opener opened, both given by their keys. -/
def closes (lexicon : Lexicon) (closer opener : String) : Bool :=
  if closer == ")" then opener == "("
  else if closer == "]" then opener == "["
  else match lexicon.closers.lookup closer with
    | some openers => openers.contains opener
    | none => false

/-- Whether a keyword starts a new section of a procedural block. -/
def isBlockSection (lexicon : Lexicon) (key : String) : Bool :=
  lexicon.blockSections.contains key

/-- Whether a line comment starts at the head of the text. -/
def startsLineComment (lexicon : Lexicon) (cs : List Char) : Bool :=
  lexicon.lineComments.any fun marker => marker.toList.isPrefixOf cs

/-- The style of the strings that start with this character. -/
def stringStyle? (lexicon : Lexicon) (c : Char) : Option StringStyle :=
  lexicon.strings.find? (·.opening == c)

end Lexicon

end SqlFormat

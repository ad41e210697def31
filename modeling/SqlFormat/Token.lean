import SqlFormat.Text.Blank

/-!
# Tokens

A token is a piece of SQL text with a kind and a position. Placeholders also carry the key under
which a parameter value is looked up. Keywords are compared by their *key*: the words of the
phrase in lower case with one space between them.
-/

namespace SqlFormat

open Text

/-- What a token is to the layout. -/
inductive TokenKind where
  | whitespace
  | lineComment
  | blockComment
  /-- A keyword that starts a clause, on a line of its own: `SELECT`, `GROUP BY`. -/
  | reservedTopLevel
  /-- A keyword between two queries, whose content is not indented: `UNION ALL`. -/
  | reservedTopLevelNoIndent
  /-- A keyword that starts a new line inside a clause: `AND`, `LEFT JOIN`. -/
  | reservedNewline
  | reserved
  /-- `(`, `[`, or a word that opens a block: `CASE`, `BEGIN`. -/
  | openParen
  /-- `)`, `]`, or a phrase that closes a block: `END`, `END IF`. -/
  | closeParen
  | string
  | indexedPlaceholder
  | namedPlaceholder
  | number
  | operator
  | word
deriving DecidableEq, Repr, Inhabited

namespace TokenKind

/-- The name of a kind in messages. -/
def name : TokenKind → String
  | whitespace => "Whitespace"
  | lineComment => "LineComment"
  | blockComment => "BlockComment"
  | reservedTopLevel => "ReservedTopLevel"
  | reservedTopLevelNoIndent => "ReservedTopLevelNoIndent"
  | reservedNewline => "ReservedNewline"
  | reserved => "Reserved"
  | openParen => "OpenParen"
  | closeParen => "CloseParen"
  | string => "String"
  | indexedPlaceholder => "IndexedPlaceholder"
  | namedPlaceholder => "NamedPlaceholder"
  | number => "Number"
  | operator => "Operator"
  | word => "Word"

/-- All kinds, in the order of their declaration. -/
def all : List TokenKind :=
  [whitespace, lineComment, blockComment, reservedTopLevel, reservedTopLevelNoIndent,
   reservedNewline, reserved, openParen, closeParen, string, indexedPlaceholder,
   namedPlaceholder, number, operator, word]

/-- The kind with a given name. -/
def ofName? (s : String) : Option TokenKind :=
  all.find? (·.name == s)

/-- Comments of either form. -/
def isComment : TokenKind → Bool
  | lineComment | blockComment => true
  | _ => false

/-- Keywords that are not block openers or closers. -/
def isReserved : TokenKind → Bool
  | reservedTopLevel | reservedTopLevelNoIndent | reservedNewline | reserved => true
  | _ => false

/-- Placeholders of either form. -/
def isPlaceholder : TokenKind → Bool
  | indexedPlaceholder | namedPlaceholder => true
  | _ => false

/-- Neither white space nor a comment. -/
def isSignificant (k : TokenKind) : Bool :=
  k != whitespace && !k.isComment

/-- Kinds that may not occur in a bracket group kept on one line. -/
def breaksInlineGroup : TokenKind → Bool
  | reservedTopLevel | reservedTopLevelNoIndent | reservedNewline | lineComment | blockComment =>
    true
  | _ => false

end TokenKind

/-- What a placeholder is looked up by. -/
inductive PlaceholderKey where
  /-- A zero-based index, or none if the number written stands for no parameter. -/
  | index (i : Option Nat)
  | name (s : String)
deriving DecidableEq, Repr

/-- A piece of SQL text. -/
structure Token where
  kind : TokenKind
  text : String
  /-- The offset of the text in the source, in bytes. -/
  pos : Nat
  /-- The look-up key, for placeholders. -/
  key : Option PlaceholderKey
deriving DecidableEq, Repr

/-- A phrase with one space between its words; a text without blanks is unchanged. -/
def normalizePhrase (s : String) : String :=
  if s.toList.any isBlank then
    joinWith " " ((words s.toList).map String.ofList)
  else s

/-- The form in which keyword phrases are compared: one space between words, and lower case. -/
def phraseKey (s : String) : String :=
  lowerAscii (normalizePhrase s)

namespace Token

/-- A token without a look-up key. -/
def plain (kind : TokenKind) (text : String) (pos : Nat) : Token :=
  ⟨kind, text, pos, none⟩

/-- An operator with exactly this text. -/
def isOperator (t : Token) (op : String) : Bool :=
  t.kind == .operator && t.text == op

/-- A bracket, as opposed to a word that opens or closes a block. -/
def isBracket (t : Token) : Bool :=
  (t.kind == .openParen || t.kind == .closeParen) &&
    (t.text == "(" || t.text == ")" || t.text == "[" || t.text == "]")

/-- The form in which the text of a keyword is compared. -/
def keyText (t : Token) : String :=
  phraseKey t.text

/-- A keyword, the words that open and close blocks included. -/
def isKeyword (t : Token) : Bool :=
  t.kind.isReserved || ((t.kind == .openParen || t.kind == .closeParen) && !t.isBracket)

end Token

end SqlFormat

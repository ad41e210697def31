import SqlFormat.Text.Count
import SqlFormat.Token.Scan

/-!
# The lexer

A text is cut into tokens from left to right. Each cut takes at least one character and the cuts
cover the text, so that the texts of the tokens joined together are the text again. What a cut
takes depends on the text ahead and on a little memory: the last token that was neither white space
nor a comment, and the number of bare `?` so far.

The rules are tried in a fixed order, and the first that applies decides.
-/

namespace SqlFormat.Lexer

open Text

/-- What the lexer remembers of the tokens so far. -/
structure Memory where
  /-- The last significant token. -/
  last : Option Token
  /-- The index of the next bare `?`. -/
  positional : Nat

/-- Nothing has been read. -/
def Memory.start : Memory := ⟨none, 0⟩

/-- The memory after one more token. -/
def Memory.after (memory : Memory) (token : Token) : Memory where
  last := if token.kind.isSignificant then some token else memory.last
  positional :=
    if token.kind == .indexedPlaceholder && token.text == "?" then memory.positional + 1
    else memory.positional

/-- What a rule makes of the text ahead. -/
structure Lexeme where
  kind : TokenKind
  /-- The number of characters. -/
  length : Nat
  key : Option PlaceholderKey

/-- A lexeme without a look-up key. -/
def Lexeme.plain (kind : TokenKind) (length : Nat) : Lexeme := ⟨kind, length, none⟩

/-! ## Blanks, comments and strings -/

/-- A run of blanks. -/
def blanks? (text : List Char) : Option Lexeme :=
  if text.head?.any isBlank then some (.plain .whitespace (Scan.blanks text)) else none

/-- A comment of either form. -/
def comment? (lexicon : Lexicon) (text : List Char) : Option Lexeme :=
  if lexicon.startsLineComment text then some (.plain .lineComment (Scan.lineComment text))
  else if Scan.startsBlockComment text then some (.plain .blockComment (Scan.blockComment text))
  else none

/-- A dollar-quoted string. -/
def dollarString? (lexicon : Lexicon) (text : List Char) : Option Lexeme :=
  if lexicon.dollarQuotes then (Scan.dollarString? text).map (.plain .string) else none

/-- A string that starts with one of the delimiters. -/
def quotedString? (lexicon : Lexicon) (text : List Char) : Option Lexeme := do
  let c ← text.head?
  let style ← lexicon.stringStyle? c
  return .plain .string (Scan.string style text)

/-- A string with a letter before its quote. -/
def prefixedString? (lexicon : Lexicon) : List Char → Option Lexeme
  | letter :: '\x27' :: cs => do
    let backslash ← lexicon.prefixedStrings.lookup letter
    return .plain .string (1 + Scan.string ⟨'\x27', '\x27', backslash⟩ ('\x27' :: cs))
  | _ => none

/-! ## Words and keywords -/

/-- The phrases of one to `n` words at the head of a text that starts with a word, shortest first:
the key and the length of each. The words after the first start with a letter. -/
def phrases : (n : Nat) → (text : List Char) → List (List Char × Nat)
  | 0, _ => []
  | n + 1, text =>
    let length := Scan.word text
    let key := (text.take length).map Char.toLower
    let rest := text.drop length
    let gap := Scan.blanks rest
    let next := rest.drop gap
    (key, length) ::
      if gap != 0 && next.head?.any Char.isAlpha then
        (phrases n next).map fun (k, len) => (key ++ ' ' :: k, length + gap + len)
      else []

/-- The longest phrase at the head of the text that the lexicon knows: its kind, key and length. -/
def keyword? (lexicon : Lexicon) (text : List Char) : Option (TokenKind × String × Nat) :=
  (phrases Lexicon.maxPhraseWords text).reverse.findSome? fun (key, length) =>
    (lexicon.classify (String.ofList key)).map (·, String.ofList key, length)

/-- The last significant token ends a statement or the header of a block. -/
def Memory.atStatementStart (memory : Memory) : Bool :=
  match memory.last with
  | none => true
  | some token =>
    if token.isOperator ";" then true
    else if token.kind == .openParen && !token.isBracket then token.keyText != "case"
    else ["then", "else", "do", "loop", "repeat", "exception"].contains token.keyText

/-- What follows `BEGIN` when it starts a transaction and no block. -/
def transactionWords : List String :=
  ["transaction", "work", "deferred", "immediate", "exclusive", "isolation"]

/-- `EXISTS` or `NOT EXISTS` follows. -/
def existsFollows (after : List Char) : Bool :=
  match Scan.nextWord? after with
  | some "exists" => true
  | some "not" => Scan.nextWord? ((after.dropWhile isBlank).drop 3) == some "exists"
  | _ => false

/-- An opener that opens nothing where it stands: `BEGIN` of a transaction, `IF` of `IF EXISTS`,
and `IF`, `WHILE`, `REPEAT` that start no statement. -/
def Memory.opensNothing (memory : Memory) (key : String) (after : List Char) : Bool :=
  match key with
  | "begin" =>
    let next := (after.dropWhile isBlank).head?
    next.isNone || next == some ';' ||
      (Scan.nextWord? after).any transactionWords.contains
  | "if" => existsFollows after || !memory.atStatementStart
  | "while" | "repeat" => !memory.atStatementStart
  | _ => false

/-- The kind of a keyword in its context: an opener that opens nothing is a plain keyword. -/
def Memory.refine (memory : Memory) (kind : TokenKind) (key : String) (after : List Char) :
    TokenKind :=
  if kind == .openParen && memory.opensNothing key after then .reserved else kind

/-- A word that starts with a letter is the longest phrase that the lexicon knows, except after a
dot; any other word stands for itself. -/
def word? (lexicon : Lexicon) (memory : Memory) (text : List Char) : Option Lexeme :=
  if text.head?.any Scan.isWordStart then
    if memory.last.any (·.isOperator ".") || !text.head?.any Char.isAlpha then
      some (.plain .word (Scan.word text))
    else
      match keyword? lexicon text with
      | some (kind, key, length) =>
        some (.plain (memory.refine kind key (text.drop length)) length)
      | none => some (.plain .word (Scan.word text))
  else none

/-! ## Placeholders and variables -/

/-- The index that a written number stands for: numbers count from `base`, and those that do not
fit into 64 bits stand for none. -/
def writtenIndex (base : Nat) (ds : List Char) : Option Nat :=
  let n := digitsValue ds
  if base ≤ n && n < UInt64.size then some (n - base) else none

/-- An indexed placeholder. A bare `?` takes the next index. -/
def indexedPlaceholder? (lexicon : Lexicon) (memory : Memory) : List Char → Option Lexeme
  | [] => none
  | c :: cs =>
    if lexicon.placeholders.indexed.contains c then
      let ds := cs.takeWhile Char.isDigit
      if !ds.isEmpty then
        some ⟨.indexedPlaceholder, 1 + ds.length,
          some (.index (writtenIndex lexicon.placeholders.base ds))⟩
      else if c == '?' then
        some ⟨.indexedPlaceholder, 1, some (.index (some memory.positional))⟩
      else none
    else none

/-- A quoted name without its quotes; the closing one may be missing. -/
def unquote : List Char → List Char
  | [] => []
  | c :: cs =>
    let closing := if c == '[' then ']' else c
    if cs.getLast? == some closing then cs.dropLast else cs

/-- The length of a placeholder name, and the name. -/
def placeholderName? : List Char → Option (Nat × List Char)
  | [] => none
  | c :: cs =>
    if c == '\x22' || c == '\x60' || c == '\x27' then
      let n := Scan.string (.quoted c) (c :: cs)
      some (n, unquote ((c :: cs).take n))
    else if c == '[' then
      let n := Scan.through [']'] (c :: cs)
      some (n, unquote ((c :: cs).take n))
    else if Scan.isWordStart c || c.isDigit then
      let n := Scan.word (c :: cs)
      some (n, (c :: cs).take n)
    else none

/-- A named placeholder. -/
def namedPlaceholder? (lexicon : Lexicon) : List Char → Option Lexeme
  | [] => none
  | c :: cs =>
    if lexicon.placeholders.named.contains c then
      (placeholderName? cs).map fun (n, name) =>
        ⟨.namedPlaceholder, 1 + n, some (.name (String.ofList name))⟩
    else none

/-- A session variable is a word with one or two sigils before it. -/
def sessionVariable? (lexicon : Lexicon) : List Char → Option Lexeme
  | [] => none
  | c :: cs =>
    if lexicon.variablePrefixes.contains c then
      let sigils := if cs.head? == some c then 2 else 1
      let n := Scan.word ((c :: cs).drop sigils)
      if n = 0 then none else some (.plain .word (sigils + n))
    else none

/-! ## Numbers, brackets and operators -/

/-- A dot and a digit make a fraction, except after what a dot can select from. -/
def Memory.startsFraction (memory : Memory) : List Char → Bool
  | '.' :: d :: _ =>
    d.isDigit && !memory.last.any fun t =>
      t.kind == .word || t.kind == .closeParen || t.kind == .string
  | _ => false

/-- A number. -/
def number? (memory : Memory) (text : List Char) : Option Lexeme :=
  if text.head?.any Char.isDigit || memory.startsFraction text then
    some (.plain .number (Scan.number text))
  else none

/-- A bracket. -/
def bracket? (lexicon : Lexicon) (text : List Char) : Option Lexeme :=
  match text.head? with
  | some '(' => some (.plain .openParen 1)
  | some ')' => some (.plain .closeParen 1)
  | some '[' => if lexicon.bracketParens then some (.plain .openParen 1) else none
  | some ']' => if lexicon.bracketParens then some (.plain .closeParen 1) else none
  | _ => none

/-- What nothing else matches is an operator, of one character if it is none of the longer ones. -/
def operator (text : List Char) : Lexeme :=
  .plain .operator (max 1 (Scan.compoundOperator text))

/-! ## The token sequence -/

/-- The lexeme at the head of a text: the first rule that applies. -/
def lexeme (lexicon : Lexicon) (memory : Memory) (text : List Char) : Lexeme :=
  (blanks? text
    <|> comment? lexicon text
    <|> dollarString? lexicon text
    <|> quotedString? lexicon text
    <|> prefixedString? lexicon text
    <|> word? lexicon memory text
    <|> indexedPlaceholder? lexicon memory text
    <|> namedPlaceholder? lexicon text
    <|> sessionVariable? lexicon text
    <|> number? memory text
    <|> bracket? lexicon text).getD (operator text)

/-- The tokens of a text at a position. A token has at least one character. -/
def tokensFrom (lexicon : Lexicon) (memory : Memory) (pos : Nat) : List Char → List Token
  | [] => []
  | c :: cs =>
    let found := lexeme lexicon memory (c :: cs)
    let text := c :: cs.take (found.length - 1)
    let token : Token := ⟨found.kind, String.ofList text, pos, found.key⟩
    token ::
      tokensFrom lexicon (memory.after token) (pos + byteLength text) (cs.drop (found.length - 1))
termination_by cs => cs.length

end SqlFormat.Lexer

namespace SqlFormat

/-- The tokens of a text. -/
def tokenize (lexicon : Lexicon) (text : String) : List Token :=
  Lexer.tokensFrom lexicon .start 0 text.toList

end SqlFormat

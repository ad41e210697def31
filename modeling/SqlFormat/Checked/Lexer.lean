import SqlFormat.Checked.Scan
import SqlFormat.Token.Lexer

/-!
# The lexer on bytes

The lexer as it cuts the bytes of a text into tokens, index by index. It tries the rules of `Lexer` in
their order; lengths are in bytes here, and the piece between two cuts is taken out of the text only
if no character is split.
-/

namespace SqlFormat.Checked.Lexer

open SqlFormat.Lexer Text

/-- A rule gives a lexeme, with its length in bytes, if it applies. -/
abbrev Rule := OptionT Checked Lexeme

/-- A rule that gives a lexeme, if it gives one, without a fault. -/
def Rule.ofOption (found : Option Lexeme) : Rule :=
  OptionT.mk (.ok found)

/-! ## Blanks, comments and strings -/

/-- A run of blanks. -/
def blanks (first : Char) (rest : Bytes) : Rule :=
  .ofOption (if isBlank first then some (.plain .whitespace (Scan.blanks rest)) else none)

/-- The bytes start with one of the marks of line comments. -/
def startsLineComment (lexicon : Lexicon) (bytes : Bytes) : Bool :=
  lexicon.lineComments.any fun mark => bytes.startsWith mark.toList

/-- A comment of either form. -/
def comment (lexicon : Lexicon) (rest : Bytes) : Rule := OptionT.mk do
  if startsLineComment lexicon rest then
    return some (.plain .lineComment (Scan.lineComment rest))
  else if rest.startsWith ['/', '*'] then
    let length ← Scan.blockComment rest
    let _ ← rest.before length
    return some (.plain .blockComment length)
  else return none

/-- A dollar-quoted string. -/
def dollarString (lexicon : Lexicon) (first : Char) (rest : Bytes) : Rule := OptionT.mk do
  if first == '$' && lexicon.dollarQuotes then
    return (← Scan.dollarString? rest).map (.plain .string)
  else return none

/-- A string that starts with one of the delimiters. -/
def quotedString (lexicon : Lexicon) (first : Char) (rest : Bytes) : Rule := OptionT.mk do
  match lexicon.stringStyle? first with
  | some style => return some (.plain .string (← Scan.string style rest))
  | none => return none

/-- A string with a letter before its quote. -/
def prefixedString (lexicon : Lexicon) (first : Char) (rest : Bytes) : Rule := OptionT.mk do
  if 1 < rest.size then
    let second ← rest.element 1
    if second == '\x27' then
      match lexicon.prefixedStrings.lookup first with
      | some backslash =>
        let length ← Scan.string ⟨'\x27', '\x27', backslash⟩ (← rest.since 1)
        return some (.plain .string (1 + length))
      | none => return none
    else return none
  else return none

/-! ## Words and keywords -/

/-- The length of the blanks after a word that ends at `stop`, which run up to the next word or to the
end. -/
def gapFrom (rest : Bytes) (stop : Nat) : Checked Nat := do
  match (← rest.since stop).position? fun b => !isBlank b with
  | some gap => return gap
  | none => minus rest.size stop

/-- Where the next words, `count` at most, start and end, after a word that ends at `stop`. They start
with a letter, and blanks stand between them. -/
def spansFrom (rest : Bytes) : (count stop : Nat) → Checked (List (Nat × Nat))
  | 0, _ => return []
  | count + 1, stop => do
    let gap ← gapFrom rest stop
    let start := stop + gap
    if gap = 0 || rest.size ≤ start then return []
    else
      let letter ← rest.element start
      if letter.isAlpha then
        let length ← Scan.word (← rest.since start)
        return (start, start + length) :: (← spansFrom rest count (start + length))
      else return []

/-- The key of the phrase that words make. -/
def keyOf (rest : Bytes) (spans : List (Nat × Nat)) : Checked String := do
  let words ← spans.mapM fun (start, stop) => do
    return (← rest.part start stop).chars.map Char.toLower
  return .ofList (List.intercalate [' '] words)

/-- The longest phrase of the first `count` words that the lexicon knows: its kind, key and length. -/
def longest? (lexicon : Lexicon) (rest : Bytes) (spans : Array (Nat × Nat)) :
    (count : Nat) → Checked (Option (TokenKind × String × Nat))
  | 0 => return none
  | count + 1 => do
    let key ← keyOf rest (← part spans 0 (count + 1)).toList
    match lexicon.classify key with
    | some kind => return some (kind, key, (← element spans count).2)
    | none => longest? lexicon rest spans count

/-- `EXISTS` or `NOT EXISTS` follows. -/
def existsFollows (after : Bytes) : Checked Bool := do
  match ← Scan.nextWord? after with
  | some "exists" => return true
  | some "not" =>
    let start := (after.position? fun b => !isBlank b).getD 0
    return (← Scan.nextWord? (← after.since (start + 3))) == some "exists"
  | _ => return false

/-- An opener that opens nothing where it stands. -/
def opensNothing (memory : Memory) (key : String) (after : Bytes) : Checked Bool := do
  match key with
  | "begin" =>
    let next := (after.position? fun b => !isBlank b).bind after.char?
    return next.isNone || next == some ';' ||
      (← Scan.nextWord? after).any transactionWords.contains
  | "if" => return (← existsFollows after) || !memory.atStatementStart
  | "while" | "repeat" => return !memory.atStatementStart
  | _ => return false

/-- The kind of a keyword in its context. -/
def refine (memory : Memory) (kind : TokenKind) (key : String) (after : Bytes) :
    Checked TokenKind := do
  if kind == .openParen then
    return if ← opensNothing memory key after then .reserved else kind
  else return kind

/-- A word that starts with a letter is the longest phrase that the lexicon knows, except after a
dot; any other word stands for itself. -/
def word (lexicon : Lexicon) (memory : Memory) (first : Char) (rest : Bytes) : Rule :=
  OptionT.mk do
    if SqlFormat.Scan.isWordStart first then
      let stop ← Scan.word rest
      if memory.last.any (·.isOperator ".") || !first.isAlpha then
        return some (.plain .word stop)
      else
        let spans := ((0, stop) :: (← spansFrom rest (Lexicon.maxPhraseWords - 1) stop)).toArray
        match ← longest? lexicon rest spans spans.size with
        | some (kind, key, length) =>
          return some (.plain (← refine memory kind key (← rest.since length)) length)
        | none => return some (.plain .word stop)
    else return none

/-! ## Placeholders and variables -/

/-- An indexed placeholder. A bare `?` takes the next index. -/
def indexedPlaceholder (lexicon : Lexicon) (memory : Memory) (first : Char) (rest : Bytes) :
    Rule := OptionT.mk do
  if lexicon.placeholders.indexed.contains first then
    let after ← rest.since 1
    let count := (after.position? fun b => !b.isDigit).getD after.size
    if 0 < count then
      let written ← rest.part 1 (count + 1)
      return some ⟨.indexedPlaceholder, 1 + count,
        some (.index (writtenIndex lexicon.placeholders.base written.chars))⟩
    else if first == '?' then
      return some ⟨.indexedPlaceholder, 1, some (.index (some memory.positional))⟩
    else return none
  else return none

/-- The bytes of a quoted name without its quotes, as text. -/
def unquoted (quoted : Bytes) : String :=
  decodeLossy ((unquote quoted.chars).map Char.toUInt8)

/-- The length of a placeholder name, and the name. -/
def placeholderName? (body : Bytes) : Checked (Option (Nat × String)) := do
  let first ← body.element 0
  if first == '\x22' || first == '\x60' || first == '\x27' then
    let length ← Scan.string (.quoted first) body
    return some (length, unquoted (← body.before length))
  else if first == '[' then
    let length := ((body.position? (· == ']')).map (· + 1)).getD body.size
    return some (length, unquoted (← body.before length))
  else if SqlFormat.Scan.isWordStart first || first.isDigit then
    let length ← Scan.word body
    return some (length, decodeLossy (← body.before length).toList)
  else return none

/-- A named placeholder. -/
def namedPlaceholder (lexicon : Lexicon) (first : Char) (rest : Bytes) : Rule := OptionT.mk do
  if lexicon.placeholders.named.contains first && 1 < rest.size then
    return (← placeholderName? (← rest.since 1)).map fun (length, name) =>
      ⟨.namedPlaceholder, 1 + length, some (.name name)⟩
  else return none

/-- A session variable is a word with one or two sigils before it. -/
def sessionVariable (lexicon : Lexicon) (first : Char) (rest : Bytes) : Rule := OptionT.mk do
  if lexicon.variablePrefixes.contains first then
    let sigils := if rest.char? 1 == some first then 2 else 1
    let length ← Scan.word (← rest.since sigils)
    return if length = 0 then none else some (.plain .word (sigils + length))
  else return none

/-! ## Numbers, brackets and operators -/

/-- A dot and a digit make a fraction, except after what a dot can select from. -/
def startsFraction (memory : Memory) (first : Char) (rest : Bytes) : Bool :=
  first == '.' && (rest.char? 1).any Char.isDigit && !memory.last.any fun t =>
    t.kind == .word || t.kind == .closeParen || t.kind == .string

/-- A number. -/
def number (memory : Memory) (first : Char) (rest : Bytes) : Rule := OptionT.mk do
  if first.isDigit || startsFraction memory first rest then
    return some (.plain .number (← Scan.number rest))
  else return none

/-- A bracket. -/
def bracket (lexicon : Lexicon) (first : Char) : Rule :=
  .ofOption (bracket? lexicon [first])

/-- What nothing else matches is an operator, of one character if it is none of the longer ones. -/
def operator (source : String) (pos : Nat) (rest : Bytes) : Checked Lexeme := do
  let length ← Scan.compoundOperator rest
  if 0 < length then return .plain .operator length
  else
    let first ← characterAt source pos
    return .plain .operator ((first.map Char.utf8Size).getD 1)

/-! ## The token sequence -/

/-- The lexeme at a position of a text: the first rule that applies. -/
def lexeme (lexicon : Lexicon) (memory : Memory) (source : String) (pos : Nat) (rest : Bytes) :
    Checked Lexeme := do
  let first ← rest.element 0
  let found ← (blanks first rest
    <|> comment lexicon rest
    <|> dollarString lexicon first rest
    <|> quotedString lexicon first rest
    <|> prefixedString lexicon first rest
    <|> word lexicon memory first rest
    <|> indexedPlaceholder lexicon memory first rest
    <|> namedPlaceholder lexicon first rest
    <|> sessionVariable lexicon first rest
    <|> number memory first rest
    <|> bracket lexicon first).run
  match found with
  | some lexeme => return lexeme
  | none => operator source pos rest

/-- What has been read so far. -/
structure Progress where
  tokens : Array Token
  /-- The index of the last token that is neither white space nor a comment. -/
  last : Option Nat
  /-- The index of the next bare `?`. -/
  positional : Nat

/-- Nothing has been read. -/
def Progress.start : Progress := ⟨#[], none, 0⟩

/-- What the lexer remembers of what it has read. -/
def Progress.memory (progress : Progress) : Checked Memory := do
  return ⟨← progress.last.mapM (element progress.tokens), progress.positional⟩

/-- One more token has been read. -/
def Progress.push (progress : Progress) (token : Token) : Progress where
  tokens := progress.tokens.push token
  last := if token.kind.isSignificant then some progress.tokens.size else progress.last
  positional :=
    if token.kind == .indexedPlaceholder && token.text == "?" then progress.positional + 1
    else progress.positional

/-- Read a text on from a position. Every cut takes at least one byte and splits no character. -/
def run (lexicon : Lexicon) (source : String) (bytes : Bytes) (progress : Progress) (pos : Nat) :
    Checked (Array Token) :=
  if pos < source.utf8ByteSize then do
    let memory ← progress.memory
    let found ← lexeme lexicon memory source pos (← bytes.since pos)
    if 0 < found.length ∧ isBoundary source (pos + found.length) then
      let text ← substring source pos (pos + found.length)
      run lexicon source bytes (progress.push ⟨found.kind, text, pos, found.key⟩)
        (pos + found.length)
    else .error .assertion
  else return progress.tokens
termination_by source.utf8ByteSize - pos

end SqlFormat.Checked.Lexer

namespace SqlFormat.Checked

/-- The tokens of a text. -/
def tokenize (lexicon : Lexicon) (text : String) : Checked (Array Token) :=
  Lexer.run lexicon text (.ofString text) .start 0

end SqlFormat.Checked

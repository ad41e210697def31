import SqlFormat.Checked.Bytes
import SqlFormat.Text.Utf8
import SqlFormat.Token.Scan

/-!
# Scanning bytes

The scans of the lexer as they go over the bytes of a text, index by index. Every function gives a
number of bytes, or the fault of a byte that was asked for and is not there.
-/

namespace SqlFormat.Checked.Scan

open SqlFormat.Scan Text

/-- Go on from an index as long as the bytes, each with its index, satisfy `p`. -/
def skip (bytes : Bytes) (p : Nat → Char → Bool) (i : Nat) : Checked Nat :=
  if i < bytes.size then do
    let b ← bytes.element i
    if p i b then skip bytes p (i + 1) else return i
  else return i
termination_by bytes.size - i

/-! ## Words -/

/-- The length of a word. After the first byte it may also hold `$`. -/
def word (bytes : Bytes) : Checked Nat :=
  skip bytes (fun i b => isWordChar b || (b == '$' && 0 < i)) 0

/-- The length of a run of blanks. -/
def blanks (bytes : Bytes) : Nat :=
  (bytes.position? fun b => !isBlank b).getD bytes.size

/-- The word that follows, past blanks, in lower case. -/
def nextWord? (bytes : Bytes) : Checked (Option String) :=
  match bytes.position? fun b => !isBlank b with
  | none => return none
  | some start => do
    let length ← word (← bytes.since start)
    if length = 0 then return none
    else return some (lowerAscii (decodeLossy (← bytes.part start (start + length)).toList))

/-! ## Numbers -/

/-- Go on over digits and underscores. -/
def digits (bytes : Bytes) (i : Nat) : Checked Nat :=
  skip bytes (fun _ b => b.isDigit || b == '_') i

/-- The length of a number with a radix. -/
def radixNumber? (bytes : Bytes) : Checked (Option Nat) := do
  let first ← bytes.element 0
  if first == '0' && 2 < bytes.size then
    let radix ← bytes.element 1
    let digit ← bytes.element 2
    if isRadixDigit radix digit then
      return some (← skip bytes (fun _ b => isRadixDigit radix b || b == '_') 2)
    else return none
  else return none

/-- Go on over a fractional part. Two dots are a range and no fraction. -/
def fraction (bytes : Bytes) (i : Nat) : Checked Nat :=
  if i < bytes.size then do
    let dot ← bytes.element i
    if dot == '.' && bytes.char? (i + 1) != some '.' then digits bytes (i + 1)
    else return i
  else return i

/-- Go on over a sign. -/
def sign (bytes : Bytes) (i : Nat) : Checked Nat :=
  if i < bytes.size then do
    let b ← bytes.element i
    if b == '+' || b == '-' then return i + 1 else return i
  else return i

/-- Go on over an exponent, which has at least one digit. -/
def exponent (bytes : Bytes) (i : Nat) : Checked Nat :=
  if i < bytes.size then do
    let e ← bytes.element i
    if e == 'e' || e == 'E' then
      let start ← sign bytes (i + 1)
      if start < bytes.size then
        let digit ← bytes.element start
        if digit.isDigit then digits bytes start else return i
      else return i
    else return i
  else return i

/-- The length of a number. -/
def number (bytes : Bytes) : Checked Nat :=
  if bytes.size = 0 then return 0
  else do
    match ← radixNumber? bytes with
    | some n => return n
    | none => exponent bytes (← fraction bytes (← digits bytes 0))

/-! ## Strings -/

/-- Go on from an index inside a string to its end: past the first closing delimiter that is neither
doubled nor taken by a backslash. -/
def stringFrom (style : StringStyle) (bytes : Bytes) (i : Nat) : Checked Nat :=
  if i < bytes.size then do
    let rest ← bytes.since i
    match rest.position? fun b => b == style.closing || (style.backslash && b == '\\') with
    | none => return bytes.size
    | some offset =>
      let found ← bytes.element (i + offset)
      if found == '\\' && style.backslash then stringFrom style bytes (i + offset + 2)
      else if bytes.char? (i + offset + 1) == some style.closing then
        stringFrom style bytes (i + offset + 2)
      else return i + offset + 1
  else return bytes.size
termination_by bytes.size - i

/-- The length of a string, both delimiters included. -/
def string (style : StringStyle) (bytes : Bytes) : Checked Nat :=
  stringFrom style bytes 1

/-- The tag that opens a dollar-quoted string, with its two dollar signs. A digit after the first
dollar sign makes a placeholder and no tag. -/
def dollarTag? (bytes : Bytes) : Checked (Option Bytes) := do
  let close ← skip bytes (fun _ b => b.isAlphanum || b == '_') 1
  if close < bytes.size then
    let dollar ← bytes.element close
    let second ← bytes.element 1
    if dollar != '$' || (1 < close && second.isDigit) then return none
    else return some (← bytes.before (close + 1))
  else return none

/-- The length of a dollar-quoted string, if there is one. -/
def dollarString? (bytes : Bytes) : Checked (Option Nat) := do
  match ← dollarTag? bytes with
  | none => return none
  | some tag =>
    match (← bytes.since tag.size).find? tag.chars with
    | some offset => return some (tag.size + offset + tag.size)
    | none => return some bytes.size

/-! ## Comments -/

/-- The length of a line comment, the line feed not included. -/
def lineComment (bytes : Bytes) : Nat :=
  (bytes.position? (· == '\n')).getD bytes.size

/-- The length of a block comment, both delimiters included. -/
def blockComment (bytes : Bytes) : Checked Nat := do
  match (← bytes.since 2).find? ['*', '/'] with
  | some offset => return offset + 4
  | none => return bytes.size

/-! ## Operators -/

/-- The length of an operator of several characters, 0 if there is none. -/
def compoundOperator (bytes : Bytes) : Checked Nat :=
  if bytes.size < 2 then return 0
  else do
    let second ← bytes.element 1
    let first ← bytes.element 0
    return SqlFormat.Scan.compoundOperator [first, second, (bytes.char? 2).getD '\x00']

end SqlFormat.Checked.Scan

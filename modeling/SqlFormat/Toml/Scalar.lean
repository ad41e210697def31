import SqlFormat.Toml.Value

/-!
# Strings, numbers and dates

Readers for the values that hold no others. A reader takes a text and gives a value with what is
left of the text, or nothing.
-/

namespace SqlFormat.Toml

/-- One more character in front of what a reader gives. -/
def consChar (c : Option Char) (rest : Option (List Char × List Char)) : Option (List Char × List Char) :=
  match c, rest with
  | some c, some (cs, left) => some (c :: cs, left)
  | _, _ => none

/-! ## Strings -/

/-- A character that is not a control, tabs apart. -/
def isText (c : Char) : Bool :=
  c == '\t' || (0x20 ≤ c.toNat && c.toNat != 0x7f)

/-- A space or a tab. -/
def isGap (c : Char) : Bool :=
  c == ' ' || c == '\t'

/-- The value of a hexadecimal digit. -/
def hexDigit? (c : Char) : Option Nat :=
  if c.isDigit then some (c.toNat - '0'.toNat)
  else if 'a' ≤ c && c ≤ 'f' then some (c.toNat - 'a'.toNat + 10)
  else if 'A' ≤ c && c ≤ 'F' then some (c.toNat - 'A'.toNat + 10)
  else none

/-- The character with a code in hexadecimal. -/
def charOfHex? (digits : List Char) : Option Char := do
  let values ← digits.mapM hexDigit?
  let code := values.foldl (fun n d => 16 * n + d) 0
  if code.isValidChar then some (Char.ofNat code) else none

/-- The character that a letter after a backslash stands for. -/
def escaped? : Char → Option Char
  | 'b' => some '\x08'
  | 't' => some '\t'
  | 'n' => some '\n'
  | 'f' => some '\x0c'
  | 'r' => some '\r'
  | '\x22' => some '\x22'
  | '\\' => some '\\'
  | _ => none

/-- A string on one line after its opening quote. -/
def basicBody : List Char → Option (List Char × List Char)
  | [] => none
  | '\x22' :: cs => some ([], cs)
  | '\\' :: 'u' :: c₁ :: c₂ :: c₃ :: c₄ :: cs =>
    consChar (charOfHex? [c₁, c₂, c₃, c₄]) (basicBody cs)
  | '\\' :: 'U' :: c₁ :: c₂ :: c₃ :: c₄ :: c₅ :: c₆ :: c₇ :: c₈ :: cs =>
    consChar (charOfHex? [c₁, c₂, c₃, c₄, c₅, c₆, c₇, c₈]) (basicBody cs)
  | '\\' :: c :: cs => consChar (escaped? c) (basicBody cs)
  | c :: cs => if isText c then consChar (some c) (basicBody cs) else none

/-- A backslash before the end of a line: only gaps stand between. -/
def atLineEnd (cs : List Char) : Bool :=
  match cs.dropWhile isGap with
  | '\n' :: _ => true
  | '\r' :: '\n' :: _ => true
  | _ => false

/-- A string on several lines after its opening quotes. Up to two quotes may stand before the
closing ones. After a backslash at the end of a line, blanks are `skipped`. -/
def basicLines (skipped : Bool) : List Char → Option (List Char × List Char)
  | [] => none
  | '\x22' :: '\x22' :: '\x22' :: '\x22' :: '\x22' :: cs => some (['\x22', '\x22'], cs)
  | '\x22' :: '\x22' :: '\x22' :: '\x22' :: cs => some (['\x22'], cs)
  | '\x22' :: '\x22' :: '\x22' :: cs => some ([], cs)
  | '\\' :: 'u' :: c₁ :: c₂ :: c₃ :: c₄ :: cs =>
    consChar (charOfHex? [c₁, c₂, c₃, c₄]) (basicLines false cs)
  | '\\' :: 'U' :: c₁ :: c₂ :: c₃ :: c₄ :: c₅ :: c₆ :: c₇ :: c₈ :: cs =>
    consChar (charOfHex? [c₁, c₂, c₃, c₄, c₅, c₆, c₇, c₈]) (basicLines false cs)
  | '\\' :: c :: cs =>
    if atLineEnd (c :: cs) then basicLines true (c :: cs)
    else consChar (escaped? c) (basicLines false cs)
  | '\r' :: '\n' :: cs =>
    if skipped then basicLines true cs else consChar (some '\n') (basicLines false cs)
  | c :: cs =>
    if skipped && (isGap c || c == '\n') then basicLines true cs
    else if isText c || c == '\n' then consChar (some c) (basicLines false cs)
    else none

/-- A literal string on one line after its opening quote. -/
def literalBody : List Char → Option (List Char × List Char)
  | [] => none
  | '\x27' :: cs => some ([], cs)
  | c :: cs => if isText c then consChar (some c) (literalBody cs) else none

/-- A literal string on several lines after its opening quotes. -/
def literalLines : List Char → Option (List Char × List Char)
  | [] => none
  | '\x27' :: '\x27' :: '\x27' :: '\x27' :: '\x27' :: cs => some (['\x27', '\x27'], cs)
  | '\x27' :: '\x27' :: '\x27' :: '\x27' :: cs => some (['\x27'], cs)
  | '\x27' :: '\x27' :: '\x27' :: cs => some ([], cs)
  | '\r' :: '\n' :: cs => consChar (some '\n') (literalLines cs)
  | c :: cs => if isText c || c == '\n' then consChar (some c) (literalLines cs) else none

/-- A string on several lines starts after a line feed that directly follows its quotes. -/
def dropFirstBreak : List Char → List Char
  | '\n' :: cs => cs
  | '\r' :: '\n' :: cs => cs
  | cs => cs

/-- A string on one line. -/
def lineString : List Char → Option (String × List Char)
  | '\x22' :: cs => (basicBody cs).map fun (s, left) => (String.ofList s, left)
  | '\x27' :: cs => (literalBody cs).map fun (s, left) => (String.ofList s, left)
  | _ => none

/-- A string. -/
def anyString : List Char → Option (String × List Char)
  | '\x22' :: '\x22' :: '\x22' :: cs =>
    (basicLines false (dropFirstBreak cs)).map fun (s, left) => (String.ofList s, left)
  | '\x27' :: '\x27' :: '\x27' :: cs =>
    (literalLines (dropFirstBreak cs)).map fun (s, left) => (String.ofList s, left)
  | cs => lineString cs

/-! ## Numbers -/

/-- Digits with single underscores between them. -/
def areDigits (isDigit : Char → Bool) (cs : List Char) : Bool :=
  cs.head?.any isDigit && cs.getLast?.any isDigit &&
    cs.all (fun c => isDigit c || c == '_') &&
    (cs.zip cs.tail).all fun (a, b) => a != '_' || b != '_'

/-- The value of digits with underscores between them. -/
def digitsValue (radix : Nat) (cs : List Char) : Nat :=
  (cs.filterMap hexDigit?).foldl (fun n d => radix * n + d) 0

/-- A whole number without a sign has no zero in front. -/
def areWhole (cs : List Char) : Bool :=
  areDigits Char.isDigit cs && (cs.length = 1 || cs.head? != some '0')

/-- A sign, and what follows it. -/
def splitSign : List Char → Bool × List Char
  | '-' :: cs => (true, cs)
  | '+' :: cs => (false, cs)
  | cs => (false, cs)

/-- The digits of a number with a radix. -/
def radixInteger? (radix : Nat) (isDigit : Char → Bool) (cs : List Char) : Option Int :=
  if areDigits isDigit cs then some (digitsValue radix cs) else none

/-- An integer, which fits into 64 bits. -/
def integer? (cs : List Char) : Option Int := do
  let n : Int ← match cs with
    | '0' :: 'x' :: ds => radixInteger? 16 (fun c => (hexDigit? c).isSome) ds
    | '0' :: 'o' :: ds => radixInteger? 8 (fun c => '0' ≤ c && c ≤ '7') ds
    | '0' :: 'b' :: ds => radixInteger? 2 (fun c => c == '0' || c == '1') ds
    | _ =>
      let (negative, ds) := splitSign cs
      if areWhole ds then
        let value : Int := digitsValue 10 ds
        some (if negative then -value else value)
      else none
  if Int64.minValue.toInt ≤ n && n ≤ Int64.maxValue.toInt then some n else none

/-- The least number that has no float of 64 bits near it. -/
def floatLimit : Nat := Nat.pow 2 1024 - Nat.pow 2 970

/-- Digits, with a power of ten to multiply them by, make a number below the limit of floats. Only
numbers of 309 places need to be compared. -/
def isBelowLimit (digits : List Char) (power : Int) : Bool :=
  let digits := (digits.filter Char.isDigit).dropWhile (· == '0')
  let places : Int := digits.length + power
  if digits.isEmpty || places < 309 then true
  else if 309 < places then false
  else
    digitsValue 10 digits * Nat.pow 10 power.toNat < floatLimit * Nat.pow 10 (-power).toNat

/-- The digits of a fraction or an exponent after its mark; there are none if it is missing. -/
def areOptional (digits : List Char → List Char) (part : List Char) : Bool :=
  part.isEmpty || areDigits Char.isDigit (digits part)

/-- The value of an exponent, 0 if it is missing. -/
def exponentValue (exponent : List Char) : Int :=
  let (negative, ds) := splitSign (exponent.drop 1)
  let value : Int := digitsValue 10 ds
  if negative then -value else value

/-- A number with a fraction or an exponent that is not too large. -/
def isDecimal (negative : Bool) (ds : List Char) : Bool :=
  let mantissa := ds.takeWhile fun c => c != 'e' && c != 'E'
  let exponent := ds.drop mantissa.length
  let whole := mantissa.takeWhile (· != '.')
  let fraction := mantissa.drop whole.length
  let places : Int := ((fraction.filter Char.isDigit).length : Nat)
  areWhole whole && (!fraction.isEmpty || !exponent.isEmpty) &&
    areOptional (·.drop 1) fraction && areOptional (fun e => (splitSign (e.drop 1)).2) exponent &&
    (negative || isBelowLimit (whole ++ fraction) (exponentValue exponent - places))

/-- A number with a fraction or an exponent, or one of the two special ones. -/
def isFloat (cs : List Char) : Bool :=
  let (negative, ds) := splitSign cs
  ds == ['i', 'n', 'f'] || ds == ['n', 'a', 'n'] || isDecimal negative ds

/-! ## Dates and times -/

/-- Two digits up to a limit. -/
def twoDigits? (limit : Nat) : List Char → Option (Nat × List Char)
  | a :: b :: cs =>
    if a.isDigit && b.isDigit then
      let n := digitsValue 10 [a, b]
      if n ≤ limit then some (n, cs) else none
    else none
  | _ => none

/-- The days of a month. -/
def daysIn (year month : Nat) : Nat :=
  if month = 2 then
    if (year % 4 = 0 && year % 100 ≠ 0) || year % 400 = 0 then 29 else 28
  else if month = 4 || month = 6 || month = 9 || month = 11 then 30
  else 31

/-- A date. -/
def date? : List Char → Option (String × List Char)
  | y₁ :: y₂ :: y₃ :: y₄ :: '-' :: cs => do
    let year := [y₁, y₂, y₃, y₄]
    guard (year.all Char.isDigit)
    let (month, left) ← twoDigits? 12 cs
    let '-' :: left := left | none
    let (day, left') ← twoDigits? (daysIn (digitsValue 10 year) month) left
    guard (month ≠ 0 && day ≠ 0)
    return (String.ofList (year ++ '-' :: cs.take 2 ++ '-' :: left.take 2), left')
  | _ => none

/-- The digits after the point of a second, without zeros at the end; a billionth is the least that
counts. -/
def fractionText (cs : List Char) : List Char :=
  let digits := ((cs.take 9).reverse.dropWhile (· == '0')).reverse
  if digits.isEmpty then [] else '.' :: digits

/-- A time of day. -/
def time? (cs : List Char) : Option (String × List Char) := do
  let (_, left) ← twoDigits? 23 cs
  let ':' :: left := left | none
  let (_, left) ← twoDigits? 59 left
  let ':' :: left := left | none
  let (_, left) ← twoDigits? 60 left
  match left with
  | '.' :: left' =>
    let digits := left'.takeWhile Char.isDigit
    if digits.isEmpty then none
    else return (String.ofList (cs.take 8 ++ fractionText digits), left'.drop digits.length)
  | _ => return (String.ofList (cs.take 8), left)

/-- A distance from universal time. -/
def offset? : List Char → Option (String × List Char)
  | 'Z' :: cs | 'z' :: cs => some ("Z", cs)
  | sign :: cs => do
    guard (sign == '+' || sign == '-')
    let (hours, left) ← twoDigits? 23 cs
    let ':' :: left := left | none
    let (minutes, left') ← twoDigits? 59 left
    let sign := if hours = 0 && minutes = 0 then '+' else sign
    return (String.ofList (sign :: cs.take 5), left')
  | [] => none

/-- A date, a time, or both. -/
def datetime? (cs : List Char) : Option (String × List Char) :=
  match date? cs with
  | none => time? cs
  | some (date, left) =>
    let isMark := left.head?.any fun c => c == 'T' || c == 't' || c == ' '
    match if isMark then time? (left.drop 1) else none with
    | none => some (date, left)
    | some (time, left) =>
      match offset? left with
      | none => some (date ++ "T" ++ time, left)
      | some (offset, left) => some (date ++ "T" ++ time ++ offset, left)

/-- The characters of numbers and words. -/
def isNumberChar (c : Char) : Bool :=
  c.isAlphanum || c == '+' || c == '-' || c == '_' || c == '.'

/-- A value written without quotes or brackets. -/
def plain (cs : List Char) : Option (Value × List Char) :=
  match datetime? cs with
  | some (text, left) => some (.datetime text, left)
  | none =>
    let run := cs.takeWhile isNumberChar
    let left := cs.drop run.length
    if run == "true".toList then some (.boolean true, left)
    else if run == "false".toList then some (.boolean false, left)
    else match integer? run with
      | some n => some (.integer n, left)
      | none => if isFloat run then some (.float (String.ofList run), left) else none

end SqlFormat.Toml

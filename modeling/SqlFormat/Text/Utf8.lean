/-!
# UTF-8

Bytes are read as text in two ways. The strict reading refuses bytes that are not UTF-8. The lossy
reading puts one replacement character in place of each longest run of bytes that could have begun a
character.
-/

namespace SqlFormat.Text

/-- A byte that continues a character. -/
def isContinuation (b : UInt8) : Bool :=
  0x80 ≤ b && b ≤ 0xbf

/-- The second byte may follow the first in a character of three bytes. -/
def startsThree (b₀ b₁ : UInt8) : Bool :=
  if b₀ == 0xe0 then 0xa0 ≤ b₁ && b₁ ≤ 0xbf
  else if b₀ == 0xed then 0x80 ≤ b₁ && b₁ ≤ 0x9f
  else isContinuation b₁

/-- The second byte may follow the first in a character of four bytes. -/
def startsFour (b₀ b₁ : UInt8) : Bool :=
  if b₀ == 0xf0 then 0x90 ≤ b₁ && b₁ ≤ 0xbf
  else if b₀ == 0xf4 then 0x80 ≤ b₁ && b₁ ≤ 0x8f
  else isContinuation b₁

/-- The part of a first byte that says something about the character: one of `count` values. -/
def leading (count : Nat) (b : UInt8) : Nat :=
  b.toNat % count

/-- A character's number with the six bits of one more byte after it. -/
def andContinuation (n : Nat) (b : UInt8) : Nat :=
  64 * n + b.toNat % 64

/-- What a first byte and the bytes after it stand for: the character, if there is one, and the
number of further bytes that belong to it or to the broken attempt at one. -/
def decodeHead (b₀ : UInt8) (bytes : List UInt8) : Option Char × Nat :=
  if b₀ < 0x80 then (some (Char.ofNat b₀.toNat), 0)
  else if 0xc2 ≤ b₀ && b₀ ≤ 0xdf then
    match bytes with
    | b₁ :: _ =>
      if isContinuation b₁ then
        (some (Char.ofNat (andContinuation (leading 32 b₀) b₁)), 1)
      else (none, 0)
    | [] => (none, 0)
  else if 0xe0 ≤ b₀ && b₀ ≤ 0xef then
    match bytes with
    | b₁ :: rest =>
      if startsThree b₀ b₁ then
        match rest with
        | b₂ :: _ =>
          if isContinuation b₂ then
            (some (Char.ofNat (andContinuation (andContinuation (leading 16 b₀) b₁) b₂)), 2)
          else (none, 1)
        | [] => (none, 1)
      else (none, 0)
    | [] => (none, 0)
  else if 0xf0 ≤ b₀ && b₀ ≤ 0xf4 then
    match bytes with
    | b₁ :: rest =>
      if startsFour b₀ b₁ then
        match rest with
        | b₂ :: rest =>
          if isContinuation b₂ then
            match rest with
            | b₃ :: _ =>
              if isContinuation b₃ then
                let n := andContinuation (andContinuation (leading 8 b₀) b₁) b₂
                (some (Char.ofNat (andContinuation n b₃)), 3)
              else (none, 2)
            | [] => (none, 2)
          else (none, 1)
        | [] => (none, 1)
      else (none, 0)
    | [] => (none, 0)
  else (none, 0)

/-- The characters of bytes, with `none` for what is not UTF-8. -/
def decodeAll : List UInt8 → List (Option Char)
  | [] => []
  | b :: bytes =>
    let (c, more) := decodeHead b bytes
    c :: decodeAll (bytes.drop more)
termination_by bytes => bytes.length

/-- The text of bytes, with replacement characters for what is not UTF-8. -/
def decodeLossy (bytes : List UInt8) : String :=
  String.ofList ((decodeAll bytes).map (·.getD '\uFFFD'))

/-- The text of bytes, if they are UTF-8. -/
def decode? (bytes : List UInt8) : Option String :=
  ((decodeAll bytes).mapM id).map String.ofList

/-- The bytes of a text. -/
def encode (s : String) : List UInt8 :=
  s.toUTF8.toList

end SqlFormat.Text

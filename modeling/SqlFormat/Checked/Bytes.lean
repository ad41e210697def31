import SqlFormat.Checked.Fault

/-!
# Bytes

The lexer works on the bytes of a text, each read as the character with its number. A sequence of
bytes is a stretch of the bytes of a whole text, so that a part of it is not copied.
-/

namespace SqlFormat

/-- The bytes of a text from one offset to another. -/
structure Bytes where
  all : ByteArray
  start : Nat
  stop : Nat
  start_le : start ≤ stop
  stop_le : stop ≤ all.size

namespace Bytes

/-- The bytes of a text. -/
def ofString (text : String) : Bytes :=
  ⟨text.toUTF8, 0, text.toUTF8.size, Nat.zero_le _, Nat.le_refl _⟩

/-- The number of bytes. -/
def size (bytes : Bytes) : Nat := bytes.stop - bytes.start

/-- The bytes as a list. -/
def toList (bytes : Bytes) : List UInt8 :=
  (bytes.all.extract bytes.start bytes.stop).data.toList

/-- The bytes as characters. -/
def chars (bytes : Bytes) : List Char :=
  bytes.toList.map Char.ofUInt8

/-- The byte with an index, if there is one. -/
def char? (bytes : Bytes) (i : Nat) : Option Char :=
  if h : i < bytes.size then
    have hi : bytes.start + i < bytes.all.size := by
      have := bytes.stop_le
      simp only [size] at h
      omega
    some (.ofUInt8 bytes.all[bytes.start + i])
  else none

/-- All bytes but the first `n`. -/
def drop (bytes : Bytes) (n : Nat) : Bytes where
  all := bytes.all
  start := min (bytes.start + n) bytes.stop
  stop := bytes.stop
  start_le := Nat.min_le_right _ _
  stop_le := bytes.stop_le

/-- The first `n` bytes. -/
def take (bytes : Bytes) (n : Nat) : Bytes where
  all := bytes.all
  start := bytes.start
  stop := min (bytes.start + n) bytes.stop
  start_le := Nat.le_min.mpr ⟨Nat.le_add_right _ _, bytes.start_le⟩
  stop_le := Nat.le_trans (Nat.min_le_right _ _) bytes.stop_le

/-! ## What may not be there -/

/-- The byte with an index. -/
def element (bytes : Bytes) (i : Nat) : Checked Char :=
  Checked.expect .index (bytes.char? i)

/-- The bytes from an index on. -/
def since (bytes : Bytes) (n : Nat) : Checked Bytes :=
  if n ≤ bytes.size then .ok (bytes.drop n) else .error .slice

/-- The bytes before an index. -/
def before (bytes : Bytes) (n : Nat) : Checked Bytes :=
  if n ≤ bytes.size then .ok (bytes.take n) else .error .slice

/-- The bytes from one index up to another. -/
def part (bytes : Bytes) (start stop : Nat) : Checked Bytes :=
  if start ≤ stop ∧ stop ≤ bytes.size then .ok ((bytes.take stop).drop start) else .error .slice

/-! ## Searching -/

/-- The first index from `i` on of a byte that satisfies `p`. -/
def positionFrom? (bytes : Bytes) (p : Char → Bool) (i : Nat) : Option Nat :=
  if i < bytes.size then
    if (bytes.char? i).any p then some i else positionFrom? bytes p (i + 1)
  else none
termination_by bytes.size - i

/-- The index of the first byte that satisfies `p`. -/
def position? (bytes : Bytes) (p : Char → Bool) : Option Nat :=
  bytes.positionFrom? p 0

/-- The bytes from an index on start with a pattern. -/
def startsWithAt (bytes : Bytes) (i : Nat) : List Char → Bool
  | [] => true
  | c :: cs => bytes.char? i == some c && startsWithAt bytes (i + 1) cs

/-- The bytes start with a pattern. -/
def startsWith (bytes : Bytes) (pattern : List Char) : Bool :=
  bytes.startsWithAt 0 pattern

/-- The first index from `i` on at which a pattern stands. -/
def findFrom? (bytes : Bytes) (pattern : List Char) (i : Nat) : Option Nat :=
  if i < bytes.size then
    if bytes.startsWithAt i pattern then some i else findFrom? bytes pattern (i + 1)
  else none
termination_by bytes.size - i

/-- The first index at which a pattern that is not empty stands. -/
def find? (bytes : Bytes) (pattern : List Char) : Option Nat :=
  bytes.findFrom? pattern 0

end Bytes

end SqlFormat

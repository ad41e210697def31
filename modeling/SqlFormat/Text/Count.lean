/-!
# Counts

Non-negative numbers as they are written in arguments and in the environment.
-/

namespace SqlFormat.Text

/-- The value of decimal digits. -/
def digitsValue (ds : List Char) : Nat :=
  ds.foldl (fun n d => 10 * n + (d.toNat - '0'.toNat)) 0

/-- A number that fits into 64 bits. A plus sign may stand before its digits. -/
def count? (s : String) : Option Nat :=
  let digits := match s.toList with
    | '+' :: ds => ds
    | ds => ds
  if !digits.isEmpty && digits.all Char.isDigit && digitsValue digits < UInt64.size then
    some (digitsValue digits)
  else none

end SqlFormat.Text

/-!
# Faults

Some operations are not defined for all their arguments: an element past the end of a sequence, a
part of a text that splits a character, a difference below zero. In the checked form of the formatter
each of them looks at its arguments first, and a bad one is a fault that ends the whole run.
-/

namespace SqlFormat

/-- What can go wrong with an operation that is not defined everywhere. -/
inductive Fault where
  /-- An element past the end of a sequence. -/
  | index
  /-- A part of a sequence or of a text that is not there or that splits a character. -/
  | slice
  /-- An insertion inside a character or past the end of the text. -/
  | insertion
  /-- A difference below zero. -/
  | underflow
  /-- A condition that the program states about itself does not hold. -/
  | assertion
deriving DecidableEq, Repr

/-- A result, or the fault that prevented it. -/
abbrev Checked := Except Fault

namespace Checked

/-- A value that has to be there. -/
def expect {α : Type} (fault : Fault) : Option α → Checked α
  | some a => .ok a
  | none => .error fault

/-- The element with an index. -/
def element {α : Type} (xs : Array α) (i : Nat) : Checked α :=
  expect .index xs[i]?

/-- The sequence with another element at an index. -/
def store {α : Type} (xs : Array α) (i : Nat) (a : α) : Checked (Array α) :=
  if h : i < xs.size then .ok (xs.set i a) else .error .index

/-- The elements from one index up to another. -/
def part {α : Type} (xs : Array α) (start stop : Nat) : Checked (Array α) :=
  if start ≤ stop ∧ stop ≤ xs.size then .ok (xs.extract start stop) else .error .slice

/-- A difference of two numbers. -/
def minus (a b : Nat) : Checked Nat :=
  if b ≤ a then .ok (a - b) else .error .underflow

/-- What has to hold. -/
def assert (condition : Bool) : Checked Unit :=
  if condition then .ok () else .error .assertion

/-- A character starts after so many bytes of a text, or the text ends there. -/
def isBoundary (text : String) (offset : Nat) : Bool :=
  decide ((String.Pos.Raw.mk offset).IsValid text)

/-- The text between two offsets. -/
def substring (text : String) (start stop : Nat) : Checked String :=
  if start ≤ stop ∧ isBoundary text start ∧ isBoundary text stop then
    .ok (String.Pos.Raw.extract text ⟨start⟩ ⟨stop⟩)
  else .error .slice

/-- The character at an offset, if the text does not end there. -/
def characterAt (text : String) (offset : Nat) : Checked (Option Char) :=
  if isBoundary text offset then .ok (String.Pos.Raw.get? text ⟨offset⟩) else .error .slice

end Checked

end SqlFormat

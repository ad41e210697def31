import Mathlib
import SqlFormat.Checked.Fault
import SqlFormat.Proofs.Token.Lossless

/-!
# Operations without a fault

Each operation that may fail gives a result where its arguments are as it asks. The part of a text
between two places where characters start is the part of its characters.

Results: `element_eq`, `part_eq`, `minus_eq`, `isBoundary_append`, `substring_append`,
`characterAt_append`.
-/

namespace SqlFormat.Checked

open Text

variable {α β : Type}

@[simp] theorem ok_bind (a : α) (f : α → Checked β) : (Except.ok a >>= f) = f a := rfl

@[simp] theorem error_bind (fault : Fault) (f : α → Checked β) :
    (Except.error fault >>= f) = .error fault := rfl

@[simp] theorem pure_eq (a : α) : (pure a : Checked α) = .ok a := rfl

@[simp] theorem ok_map (f : α → β) (a : α) : (f <$> (Except.ok a : Checked α)) = .ok (f a) := rfl

theorem element_eq {xs : Array α} {i : Nat} {a : α} (h : xs[i]? = some a) :
    element xs i = .ok a := by
  rw [element, h]
  rfl

theorem part_eq {xs : Array α} {start stop : Nat} (h : start ≤ stop) (h' : stop ≤ xs.size) :
    part xs start stop = .ok (xs.extract start stop) :=
  if_pos ⟨h, h'⟩

theorem minus_eq {a b : Nat} (h : b ≤ a) : minus a b = .ok (a - b) :=
  if_pos h

/-! ## Texts -/

/-- Between two parts of a text a character starts, or the text ends. -/
theorem isBoundary_append (a b : List Char) :
    isBoundary (String.ofList (a ++ b)) (byteLength a) = true := by
  rw [isBoundary, decide_eq_true_iff, String.Pos.Raw.isValid_iff_exists_append]
  refine ⟨String.ofList a, String.ofList b, String.ofList_append, ?_⟩
  apply String.Pos.Raw.ext
  rw [String.byteIdx_rawEndPos, Lexer.byteLength_eq]

theorem utf8Len_eq (cs : List Char) : String.utf8Len cs = byteLength cs := by
  induction cs with
  | nil => rfl
  | cons c cs ih => rw [String.utf8Len_cons, ih, byteLength, Nat.add_comm]

/-- The part of a text in the middle. -/
theorem substring_append (a b c : List Char) :
    substring (String.ofList (a ++ (b ++ c))) (byteLength a) (byteLength a + byteLength b) =
      .ok (String.ofList b) := by
  have hstop := isBoundary_append (a ++ b) c
  rw [List.append_assoc, ← utf8Len_eq, String.utf8Len_append, utf8Len_eq, utf8Len_eq] at hstop
  rw [substring, if_pos ⟨Nat.le_add_right _ _, isBoundary_append a (b ++ c), hstop⟩,
    ← utf8Len_eq, ← utf8Len_eq, ← List.append_assoc]
  exact congrArg Except.ok (String.extract_of_valid a b c)

/-- The character behind a part of a text. -/
theorem characterAt_append (a b : List Char) :
    characterAt (String.ofList (a ++ b)) (byteLength a) = .ok b.head? := by
  rw [characterAt, if_pos (isBoundary_append a b), ← utf8Len_eq]
  exact congrArg Except.ok (String.get?_of_valid a b)

end SqlFormat.Checked

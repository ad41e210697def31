import Mathlib
import SqlFormat.Checked.Bytes
import SqlFormat.Proofs.Text.Utf8
import SqlFormat.Proofs.Token.Quoted

/-!
# Stretches of bytes as lists

What a stretch of bytes gives is what the list of its bytes gives: an index, a part, and the place
where something is found. An operation that may fail does not where the list is long enough.

Results: `since_eq`, `before_eq`, `part_eq`, `element_eq`, `position?_eq`, `find?_eq`,
`chars_ofString`.
-/

namespace SqlFormat

open Text

namespace Bytes

variable {bytes : Bytes} {n i : Nat}

theorem length_toList (bytes : Bytes) : bytes.toList.length = bytes.size := by
  have := bytes.start_le
  have := bytes.stop_le
  rw [toList, Array.length_toList]
  change (bytes.all.extract bytes.start bytes.stop).size = _
  rw [ByteArray.size_extract, size]
  omega

@[simp] theorem length_chars (bytes : Bytes) : bytes.chars.length = bytes.size := by
  rw [chars, List.length_map, length_toList]

theorem toList_eq (bytes : Bytes) :
    bytes.toList = (bytes.all.data.toList.take bytes.stop).drop bytes.start := by
  rw [toList, ByteArray.data_extract, Array.toList_extract, List.extract_eq_take_drop,
    List.drop_take]

theorem toList_drop (bytes : Bytes) (n : Nat) : (bytes.drop n).toList = bytes.toList.drop n := by
  simp only [toList_eq, drop, List.drop_drop]
  rcases Nat.le_total (bytes.start + n) bytes.stop with h | h
  · rw [Nat.min_eq_left h]
  · rw [Nat.min_eq_right h, List.drop_eq_nil_of_le (by simp), List.drop_eq_nil_of_le]
    simp only [List.length_take]
    omega

theorem toList_take (bytes : Bytes) (n : Nat) : (bytes.take n).toList = bytes.toList.take n := by
  simp only [toList_eq, take, List.take_drop, List.take_take]

@[simp] theorem chars_drop (bytes : Bytes) (n : Nat) :
    (bytes.drop n).chars = bytes.chars.drop n := by
  rw [chars, toList_drop, chars, List.map_drop]

@[simp] theorem chars_take (bytes : Bytes) (n : Nat) :
    (bytes.take n).chars = bytes.chars.take n := by
  rw [chars, toList_take, chars, List.map_take]

theorem char?_eq (bytes : Bytes) (i : Nat) : bytes.char? i = bytes.chars[i]? := by
  have hstart := bytes.start_le
  have hstop := bytes.stop_le
  rw [char?]
  split
  · next h =>
    have hi : i < bytes.toList.length := by rwa [length_toList]
    rw [chars, List.getElem?_map, List.getElem?_eq_getElem hi, Option.map_some]
    simp only [toList_eq, List.getElem_drop, List.getElem_take, Array.getElem_toList]
    rfl
  · next h =>
    rw [List.getElem?_eq_none]
    rw [length_chars]
    omega

/-! ## What is there -/

theorem element_eq {c : Char} (h : bytes.chars[i]? = some c) : bytes.element i = .ok c := by
  rw [element, char?_eq, h]
  rfl

theorem since_eq (h : n ≤ bytes.chars.length) : bytes.since n = .ok (bytes.drop n) :=
  if_pos (length_chars bytes ▸ h)

theorem before_eq (h : n ≤ bytes.chars.length) : bytes.before n = .ok (bytes.take n) :=
  if_pos (length_chars bytes ▸ h)

theorem part_eq {start stop : Nat} (h : start ≤ stop) (h' : stop ≤ bytes.chars.length) :
    bytes.part start stop = .ok ((bytes.take stop).drop start) :=
  if_pos ⟨h, length_chars bytes ▸ h'⟩

/-! ## Searching -/

theorem drop_chars_of_lt (h : i < bytes.size) :
    ∃ c, bytes.chars[i]? = some c ∧ bytes.chars.drop i = c :: bytes.chars.drop (i + 1) := by
  have hi : i < bytes.chars.length := by rwa [length_chars]
  exact ⟨bytes.chars[i], List.getElem?_eq_getElem hi, List.drop_eq_getElem_cons hi⟩

theorem drop_chars_of_le (h : ¬i < bytes.size) : bytes.chars.drop i = [] :=
  List.drop_eq_nil_of_le (by rw [length_chars]; omega)

theorem positionFrom?_eq (bytes : Bytes) (p : Char → Bool) (i : Nat) :
    bytes.positionFrom? p i = ((bytes.chars.drop i).findIdx? p).map (i + ·) := by
  fun_induction positionFrom? bytes p i with
  | case1 i h hp =>
    obtain ⟨c, hc, hdrop⟩ := drop_chars_of_lt h
    rw [char?_eq, hc, Option.any_some] at hp
    rw [hdrop, List.findIdx?_cons, if_pos hp]
    rfl
  | case2 i h hp ih =>
    obtain ⟨c, hc, hdrop⟩ := drop_chars_of_lt h
    rw [char?_eq, hc, Option.any_some] at hp
    rw [ih, hdrop, List.findIdx?_cons, if_neg hp, Option.map_map]
    congr 1
    funext k
    simp only [Function.comp]
    omega
  | case3 i h => rw [drop_chars_of_le h]; rfl

/-- The first byte that satisfies `p` is the first of the list. -/
theorem position?_eq (bytes : Bytes) (p : Char → Bool) :
    bytes.position? p = bytes.chars.findIdx? p := by
  rw [position?, positionFrom?_eq, List.drop_zero]
  simp

theorem startsWithAt_eq (bytes : Bytes) (i : Nat) (pattern : List Char) :
    bytes.startsWithAt i pattern = pattern.isPrefixOf (bytes.chars.drop i) := by
  induction pattern generalizing i with
  | nil => rw [startsWithAt, List.isPrefixOf]
  | cons p pattern ih =>
    rw [startsWithAt, ih, char?_eq]
    by_cases h : i < bytes.size
    · obtain ⟨c, hc, hdrop⟩ := drop_chars_of_lt h
      rw [hc, hdrop, List.isPrefixOf]
      rw [show (some c == some p) = (p == c) from Bool.beq_comm]
    · rw [drop_chars_of_le h, List.getElem?_eq_none (by rw [length_chars]; omega)]
      rfl

theorem startsWith_eq (bytes : Bytes) (pattern : List Char) :
    bytes.startsWith pattern = pattern.isPrefixOf bytes.chars :=
  startsWithAt_eq bytes 0 pattern

theorem findFrom?_eq (bytes : Bytes) (pattern : List Char) (i : Nat) (hi : i ≤ bytes.size) :
    ((bytes.findFrom? pattern i).map (· + pattern.length)).getD bytes.size =
      i + SqlFormat.Scan.through pattern (bytes.chars.drop i) := by
  fun_induction findFrom? bytes pattern i with
  | case1 i h hp =>
    obtain ⟨c, -, hdrop⟩ := drop_chars_of_lt h
    rw [startsWithAt_eq, hdrop] at hp
    rw [hdrop, Scan.through, if_pos hp]
    rfl
  | case2 i h hp ih =>
    obtain ⟨c, -, hdrop⟩ := drop_chars_of_lt h
    rw [startsWithAt_eq, hdrop] at hp
    rw [ih h, hdrop, Scan.through, if_neg hp]
    omega
  | case3 i h =>
    rw [drop_chars_of_le h, Scan.through]
    simp only [Option.map_none, Option.getD_none]
    omega

/-- Behind the first occurrence of a pattern, or at the end, is where the scan of the list stops. -/
theorem find?_eq (bytes : Bytes) (pattern : List Char) :
    ((bytes.find? pattern).map (· + pattern.length)).getD bytes.size =
      SqlFormat.Scan.through pattern bytes.chars := by
  rw [find?, findFrom?_eq bytes pattern 0 (Nat.zero_le _), List.drop_zero, Nat.zero_add]

/-! ## The bytes of a text -/

theorem toList_ofString (text : String) :
    (ofString text).toList = text.toList.flatMap String.utf8EncodeChar := by
  rw [toList_eq, ← toList_toUTF8]
  change (text.toUTF8.data.toList.take text.toUTF8.size).drop 0 = _
  rw [List.drop_zero, List.take_of_length_le]
  exact Nat.le_of_eq rfl

/-- The bytes of a text are those of its characters. -/
theorem chars_ofString (text : String) : (ofString text).chars = Scan.bytesOf text.toList := by
  rw [chars, toList_ofString]
  rfl

end Bytes

end SqlFormat
